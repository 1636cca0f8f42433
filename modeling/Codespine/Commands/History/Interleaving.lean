import Codespine.Commands.LoadCommand.Reload
import Codespine.Enrich.RuntimeEnricher.Idempotence
import Codespine.Lib.Interleaving
import Codespine.Store.KuzuStore.Content

open codespine.schema codespine.store codespine.store.KuzuStore codespine.enrich codespine.enrich.RuntimeEnricher
open codespine.cluster codespine.cluster.GraphClusterer codespine.commands.ClusterCommand interleaving

namespace codespine.commands

/-- Whether a command is a run of `cluster rename`. -/
def Command.renames : Command → Bool
  | .derive (.rename _) => true
  | _ => false

/-- Whether a command is a run of `enrich`. -/
def Command.enriches : Command → Bool
  | .derive (.enrich ..) => true
  | _ => false

section Enrich

/-- What a run of `enrich` comes to on every database with the same nodes for
the join to see. -/
structure Enrichment where
  attributions : OrderedMap String RuntimeAttribution
  record : Option Metadata
  edges : List String → OrderedMap EdgeKey Metadata → OrderedMap EdgeKey Metadata

/-- The records after an enrichment. -/
def Enrichment.records (effect : Enrichment) (records : OrderedMap String Metadata) : OrderedMap String Metadata :=
  match effect.record with
  | some record => records.set RUNTIME_MANIFEST_KEY record
  | none => records

structure Enrichment.Of (effect : Enrichment) (store after : KuzuStore) : Prop where
  entries : after.nodes.entries = store.nodes.entries.map fun entry =>
    (entry.1, { entry.2 with metadata := withRuntime effect.attributions entry.1 entry.2.metadata })
  edges : after.edges = effect.edges store.nodes.keys store.edges
  graphMeta : after.graphMeta = effect.records store.graphMeta

theorem exists_enrichment (host : Host) (root profileText : String) (targets : List RuntimeTargetNode) :
    ∃ effect : Enrichment, ∀ store, targetsOf store = targets →
      effect.Of store ((RuntimeEnricher.enrich host profileText root).exec store).2 := by
  cases hparse : CpuProfile.parse host profileText with
  | error e =>
    refine ⟨⟨∅, none, fun _ edges => edges⟩, fun store htargets => ?_⟩
    rw [exec_enrich, hparse]
    exact ⟨(List.map_id _).symm, rfl, rfl⟩
  | ok profile =>
    cases hjoin : RuntimeJoin.join host targets (CpuProfile.aggregate profile) root with
    | error e =>
      refine ⟨⟨∅, none, fun _ edges => edges⟩, fun store htargets => ?_⟩
      rw [exec_enrich, hparse, htargets]
      dsimp only
      rw [hjoin]
      exact ⟨(List.map_id _).symm, rfl, rfl⟩
    | ok result =>
      cases hcalls : RuntimeJoin.joinCallEdges host targets (CpuProfile.callEdges profile) root with
      | error e =>
        refine ⟨⟨result.attributions, some (manifest profile result).toRecord, fun _ edges => edges⟩,
          fun store htargets => ?_⟩
        rw [exec_enrich, hparse, htargets]
        dsimp only
        rw [hjoin]
        dsimp only
        rw [hcalls]
        exact ⟨entries_annotate store profile result, edges_annotate store profile result,
          graphMeta_annotate store profile result⟩
      | ok edgeResult =>
        refine ⟨⟨result.attributions, some (manifest profile result).toRecord, fun ids edges =>
          (relationships ids (edgeResult.edges.map toCallEdge)).foldl
            (fun written entry => written.set entry.1 entry.2)
            (edges.filter fun key _ => key.kind ≠ .CALLS_RUNTIME)⟩, fun store htargets => ?_⟩
        rw [exec_enrich, hparse, htargets]
        dsimp only
        rw [hjoin]
        dsimp only
        rw [hcalls]
        refine ⟨?_, ?_, ?_⟩
        · exact entries_apply ⟨profile, result, edgeResult⟩ store
        · change (rewire _ _).edges = _
          rw [rewire, edges_writeEdges, nodes_clearEdgesByKind, keys_annotate, edges_clearEdgesByKind, edges_annotate]
          rfl
        · exact graphMeta_apply ⟨profile, result, edgeResult⟩ store

/-- An enrichment sees nothing of the metadata. -/
theorem targetsOf_congr {store store' : KuzuStore} (h : SameContent store store') :
    targetsOf store = targetsOf store' := by
  unfold targetsOf
  exact h.map_readNodes fun _ _ _ => rfl

theorem withRuntime_congr (attributions : OrderedMap String RuntimeAttribution) (id : String)
    {metadata metadata' : Metadata} (h : SameFields metadata metadata') :
    SameFields (withRuntime attributions id metadata) (withRuntime attributions id metadata') := by
  unfold withRuntime
  cases attributions.get id with
  | none => exact h
  | some attribution => exact h.set _ _

/-- The same enrichment of the same content. -/
theorem Enrichment.Of.congr {effect : Enrichment} {store store' after after' : KuzuStore}
    (h : effect.Of store after) (h' : effect.Of store' after') (hsame : SameContent store store') :
    SameContent after after' := by
  refine hsame.of_entries h.entries h'.entries (fun id _ _ => withRuntime_congr effect.attributions id) ?_ ?_
  · rw [h.edges, h'.edges, hsame.keys, hsame.edges]
  · rw [h.graphMeta, h'.graphMeta, hsame.graphMeta]

end Enrich

section Rename

variable {store store' : KuzuStore}

/-- What a rename sees of the nodes. -/
def assignedOf (store : KuzuStore) : List AssignedNode := store.readNodes.map toAssigned

/-- A rename writes nothing to a database without communities. -/
theorem run_rename (requested : RenameLabels) (store : KuzuStore) : Derivation.run store (.rename requested) =
    if (assignedOf store).all fun node => node.community = none then store
    else ClusterCommand.applyRename store requested.labels := by
  unfold Derivation.run runRename assignedOf
  dsimp only
  split <;> rfl

theorem communityIn_congr {metadata metadata' : Metadata} (h : SameFields metadata metadata') :
    communityIn metadata = communityIn metadata' := by
  unfold communityIn
  rw [h]

theorem labelIn_congr {metadata metadata' : Metadata} (h : SameFields metadata metadata') :
    labelIn metadata = labelIn metadata' := by
  unfold labelIn
  rw [h]

theorem assignedOf_congr (h : SameContent store store') : assignedOf store = assignedOf store' := by
  unfold assignedOf
  refine h.map_readNodes fun node metadata hmetadata => ?_
  unfold toAssigned
  rw [communityIn_congr hmetadata, labelIn_congr hmetadata]

theorem currentLabel_congr (h : assignedOf store = assignedOf store') (index : ℕ) :
    currentLabel store index = currentLabel store' index := by
  unfold assignedOf at h
  unfold currentLabel membersOf
  rw [h]

theorem relabelled_congr (h : assignedOf store = assignedOf store') (labels : OrderedMap ℕ String)
    {metadata metadata' : Metadata} (hmetadata : SameFields metadata metadata') :
    SameFields (relabelled store labels metadata) (relabelled store' labels metadata') := by
  have hrequested : requestedFor labels metadata = requestedFor labels metadata' := by
    unfold requestedFor
    rw [communityIn_congr hmetadata]
  unfold relabelled
  rw [hrequested]
  cases requestedFor labels metadata' with
  | none => exact hmetadata
  | some entry =>
    dsimp only
    rw [currentLabel_congr h]
    split
    · exact hmetadata
    · exact hmetadata.set _ _

/-- The records after a rename that goes through. -/
def renamedRecords (labels : OrderedMap ℕ String) (records : OrderedMap String Metadata) : OrderedMap String Metadata :=
  match CommunityNamer.updateManifestLabels (records.get CLUSTERING_MANIFEST_KEY) labels with
  | some renamed => records.set CLUSTERING_MANIFEST_KEY renamed
  | none => records

theorem graphMeta_renamed (store : KuzuStore) (labels : OrderedMap ℕ String) :
    (ClusterCommand.applyRename store labels).graphMeta = renamedRecords labels store.graphMeta :=
  graphMeta_applyRename store labels

theorem rename_congr (requested : RenameLabels) (h : SameContent store store') :
    SameContent (Derivation.run store (.rename requested)) (Derivation.run store' (.rename requested)) := by
  rw [run_rename, run_rename, assignedOf_congr h]
  split
  · exact h
  · refine h.of_entries (entries_applyRename store requested.labels) (entries_applyRename store' requested.labels)
      (fun _ _ _ => relabelled_congr (assignedOf_congr h) requested.labels) ?_ ?_
    · rw [edges_applyRename, edges_applyRename, h.edges]
    · rw [graphMeta_renamed, graphMeta_renamed, h.graphMeta]

end Rename

section Commute

variable {store : KuzuStore}

/-- A rename leaves alone what an enrichment sees. -/
theorem targetsOf_rename (requested : RenameLabels) (store : KuzuStore) :
    targetsOf (Derivation.run store (.rename requested)) = targetsOf store := by
  rw [run_rename]
  split
  · rfl
  · unfold targetsOf readNodes
    rw [entries_applyRename, List.map_map, List.map_map, List.map_map]
    rfl

/-- An enrichment leaves alone what a rename sees. -/
theorem Enrichment.Of.assignedOf_eq {effect : Enrichment} {after : KuzuStore} (h : effect.Of store after) :
    assignedOf after = assignedOf store := by
  have hne : COMMUNITY_METADATA_KEY ≠ RUNTIME_METADATA_KEY := by decide
  have hne' : COMMUNITY_LABEL_METADATA_KEY ≠ RUNTIME_METADATA_KEY := by decide
  unfold assignedOf readNodes
  rw [h.entries, List.map_map, List.map_map, List.map_map]
  refine List.map_congr_left fun entry _ => ?_
  simp only [Function.comp_apply, toAssigned, communityIn, labelIn, get_withRuntime_ne _ _ _ hne,
    get_withRuntime_ne _ _ _ hne']

/-- The metrics and the label of a row, written in one order or the other. -/
theorem relabelled_withRuntime (attributions : OrderedMap String RuntimeAttribution) (labels : OrderedMap ℕ String)
    (id : String) (metadata : Metadata) :
    SameFields (relabelled store labels (withRuntime attributions id metadata))
      (withRuntime attributions id (relabelled store labels metadata)) := by
  have hne : COMMUNITY_METADATA_KEY ≠ RUNTIME_METADATA_KEY := by decide
  have hne' : RUNTIME_METADATA_KEY ≠ COMMUNITY_LABEL_METADATA_KEY := by decide
  unfold withRuntime
  cases attributions.get id with
  | none => exact SameFields.refl _
  | some attribution =>
    have hrequested : requestedFor labels (metadata.set RUNTIME_METADATA_KEY (toMetrics attribution).toJson) =
        requestedFor labels metadata := by
      unfold requestedFor communityIn
      rw [OrderedMap.get_set_ne hne]
    unfold relabelled
    dsimp only
    rw [hrequested]
    cases requestedFor labels metadata with
    | none => exact SameFields.refl _
    | some entry =>
      dsimp only
      split
      · exact SameFields.refl _
      · exact SameFields.set_comm hne' _ _ _

/-- The manifest of a clustering keeps its place among the records. -/
theorem renamedRecords_records (effect : Enrichment) (labels : OrderedMap ℕ String)
    (records : OrderedMap String Metadata) :
    renamedRecords labels (effect.records records) = effect.records (renamedRecords labels records) := by
  have hne : CLUSTERING_MANIFEST_KEY ≠ RUNTIME_MANIFEST_KEY := by decide
  unfold Enrichment.records
  cases effect.record with
  | none => rfl
  | some record =>
    unfold renamedRecords
    dsimp only
    rw [OrderedMap.get_set_ne hne]
    cases hmanifest : records.get CLUSTERING_MANIFEST_KEY with
    | none => rfl
    | some _ => exact (OrderedMap.set_comm_of_mem (OrderedMap.mem_keys_of_get hmanifest) hne.symm _ _).symm

/-- An enrichment and a rename come to the same in either order. -/
theorem enrich_rename_comm (host : Host) (root profileText : String) (requested : RenameLabels) (store : KuzuStore) :
    SameContent (Derivation.run (Derivation.run store (.rename requested)) (.enrich host root profileText))
      (Derivation.run (Derivation.run store (.enrich host root profileText)) (.rename requested)) := by
  obtain ⟨effect, heffect⟩ := exists_enrichment host root profileText (targetsOf store)
  set renamed := Derivation.run store (.rename requested) with hrenamed
  set enriched := Derivation.run store (.enrich host root profileText)
  have hfirst : effect.Of store enriched := heffect store rfl
  have hlast : effect.Of renamed (Derivation.run renamed (.enrich host root profileText)) :=
    heffect renamed (targetsOf_rename requested store)
  rw [run_rename] at hrenamed
  rw [run_rename requested enriched, hfirst.assignedOf_eq]
  split at hrenamed
  · next hnone =>
    rw [if_pos hnone]
    rw [hrenamed] at hlast
    rw [hrenamed]
    exact hlast.congr hfirst (SameContent.refl store)
  · next hsome =>
    rw [if_neg hsome]
    rw [hrenamed] at hlast ⊢
    refine (SameContent.refl store).of_entries
      (f := fun id metadata => withRuntime effect.attributions id (relabelled store requested.labels metadata))
      (g := fun id metadata => relabelled enriched requested.labels (withRuntime effect.attributions id metadata))
      ?_ ?_ (fun id metadata metadata' hmetadata => ?_) ?_ ?_
    · rw [hlast.entries, entries_applyRename, List.map_map]
      rfl
    · rw [entries_applyRename, hfirst.entries, List.map_map]
      rfl
    · have hkept : SameFields (relabelled store requested.labels (withRuntime effect.attributions id metadata))
          (withRuntime effect.attributions id (relabelled store requested.labels metadata)) :=
        relabelled_withRuntime effect.attributions requested.labels id metadata
      have hagain := withRuntime_congr effect.attributions id hmetadata
      exact hkept.symm.trans (relabelled_congr hfirst.assignedOf_eq.symm requested.labels hagain)
    · rw [hlast.edges, edges_applyRename, edges_applyRename, hfirst.edges,
        keys_of_entries_eq_map (entries_applyRename store requested.labels)]
    · rw [hlast.graphMeta, graphMeta_renamed, graphMeta_renamed, hfirst.graphMeta, renamedRecords_records]

end Commute

section Others

variable {store store' : KuzuStore}

theorem withCommunity_congr (communityOf : OrderedMap String ℕ) (labels : OrderedMap ℕ String) (id : String)
    {metadata metadata' : Metadata} (h : SameFields metadata metadata') :
    SameFields (withCommunity communityOf labels id metadata) (withCommunity communityOf labels id metadata') := by
  unfold withCommunity
  cases communityOf.get id with
  | none => exact h
  | some index => exact (h.set _ _).set _ _

/-- A clustering reads no metadata of nodes. -/
theorem cluster_congr (library : NetworkAnalysis) (weights : EdgeKind → ℚ) (options : CommunityOptions)
    (h : SameContent store store') :
    SameContent (Derivation.run store (.cluster library weights options))
      (Derivation.run store' (.cluster library weights options)) := by
  have hedges : readWeightedEdges store weights = readWeightedEdges store' weights := by
    unfold readWeightedEdges weightedRows
    rw [h.edges]
  have hlabelable : store.readNodes.map labelable = store'.readNodes.map labelable := h.map_readNodes fun _ _ _ => rfl
  unfold Derivation.run cluster labelsOf
  dsimp only
  rw [hedges, hlabelable]
  refine h.of_entries (entries_assign store _ _ _) (entries_assign store' _ _ _)
    (fun id _ _ => withCommunity_congr _ _ id) ?_ ?_
  · rw [edges_assign, edges_assign, h.edges]
  · rw [graphMeta_assign, graphMeta_assign, h.graphMeta]

theorem load_congr (data : GraphData) (h : SameContent store store') :
    SameContent (LoadCommand.loadGraph store data).2 (LoadCommand.loadGraph store' data).2 where
  rows := by
    rw [LoadCommand.nodes_loadGraph, LoadCommand.nodes_loadGraph]
    have hrows := h.rows
    generalize store.nodes = rows at hrows
    generalize store'.nodes = rows' at hrows
    induction LoadCommand.nodeRows data generalizing rows rows' with
    | nil => exact hrows
    | cons entry rest ih => exact ih (rows.set entry.1 entry.2) (rows'.set entry.1 entry.2) (hrows.insertEntry _ _)
  edges := by rw [LoadCommand.edges_loadGraph, LoadCommand.edges_loadGraph, h.edges]
  graphMeta := by rw [LoadCommand.graphMeta_loadGraph, LoadCommand.graphMeta_loadGraph, h.graphMeta]

theorem Command.congr (command : Command) (h : SameContent store store') :
    SameContent (command.run store) (command.run store') := by
  cases command with
  | load data => exact load_congr data h
  | derive derivation =>
    cases derivation with
    | enrich host root profileText =>
      obtain ⟨effect, heffect⟩ := exists_enrichment host root profileText (targetsOf store)
      exact (heffect store rfl).congr (heffect store' (targetsOf_congr h).symm) h
    | cluster library weights options => exact cluster_congr library weights options h
    | rename requested => exact rename_congr requested h

end Others

/-- Commands as seen without the renames, and without the enrichments. -/
theorem commandViews :
    Views Command.run SameContent (fun command => !command.renames) fun command => !command.enriches where
  equivalence := SameContent.equivalence
  congr command _ _ h := command.congr h
  shows command := by
    cases command with
    | load data => exact Or.inl rfl
    | derive derivation => cases derivation <;> first | exact Or.inl rfl | exact Or.inr rfl
  comm {command command'} henriches hrenames store := by
    cases command with
    | load data => cases henriches
    | derive derivation =>
      cases derivation with
      | cluster library weights options => cases henriches
      | rename requested => cases henriches
      | enrich host root profileText =>
        cases command' with
        | load data => cases hrenames
        | derive derivation =>
          cases derivation with
          | cluster library weights options => cases hrenames
          | enrich host' root' profileText' => cases hrenames
          | rename requested => exact enrich_rename_comm host root profileText requested store

/-- However enrichments and renames are interleaved, the database ends up with
the same content: two histories that agree on everything but the renames and on
everything but the enrichments, each in their order, reach the same one. -/
theorem reached_interleaving {history history' : List Command}
    (hrenames : (history.filter fun command => !command.renames) = history'.filter fun command => !command.renames)
    (henriches : (history.filter fun command => !command.enriches) = history'.filter fun command => !command.enriches) :
    SameContent (reached history) (reached history') :=
  commandViews.run hrenames henriches KuzuStore.initSchema

section Sample

/-- A label for the first community. -/
def startupLabel : RenameLabels where
  labels := OrderedMap.ofList [(0, "startup")]
  ne_empty := by decide

theorem reached_interleaving_startup :
    SameContent
      (reached [.load twoFunctions, .derive (.enrich profileHost "/app" callText),
        .derive (.cluster oneCommunity CLUSTER_EDGE_WEIGHTS DEFAULT_COMMUNITY_OPTIONS),
        .derive (.enrich profileHost "/app" idleText), .derive (.rename startupLabel)])
      (reached [.load twoFunctions, .derive (.enrich profileHost "/app" callText),
        .derive (.cluster oneCommunity CLUSTER_EDGE_WEIGHTS DEFAULT_COMMUNITY_OPTIONS),
        .derive (.rename startupLabel), .derive (.enrich profileHost "/app" idleText)]) :=
  reached_interleaving rfl rfl

end Sample

end codespine.commands
