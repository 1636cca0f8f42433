import Codespine.Commands.History.Frame
import Codespine.Store.KuzuStore.Load

open codespine.schema codespine.store codespine.store.KuzuStore codespine.enrich codespine.cluster

namespace codespine.commands.LoadCommand

variable {store : KuzuStore} {data : GraphData}

/-- The rows that the nodes of a graph are written as. -/
def nodeRows (data : GraphData) : List (String × NodeRow) := data.nodes.map fun node => (node.id, rowOf node)

/-- The relationships that its edges are written as. -/
def edgeRows (data : GraphData) : List (EdgeKey × Metadata) :=
  relationships (data.nodes.map GraphNode.id) data.edges

theorem nodes_loadRecords (store : KuzuStore) (source : Option SourceManifest) :
    (loadRecords store source).nodes = store.nodes := by
  cases source <;> rfl

theorem edges_loadRecords (store : KuzuStore) (source : Option SourceManifest) :
    (loadRecords store source).edges = store.edges := by
  cases source <;> rfl

theorem nodes_loadGraph (store : KuzuStore) (data : GraphData) : (loadGraph store data).2.nodes =
    (nodeRows data).foldl (fun rows entry => rows.set entry.1 entry.2) store.nodes := by
  change (loadRecords (store.load data.nodes data.edges).1 data.source).nodes = _
  rw [nodes_loadRecords, nodes_load, nodeRows, List.foldl_map]

theorem edges_loadGraph (store : KuzuStore) (data : GraphData) : (loadGraph store data).2.edges =
    (edgeRows data).foldl (fun written entry => written.set entry.1 entry.2) store.edges := by
  change (loadRecords (store.load data.nodes data.edges).1 data.source).edges = _
  rw [edges_loadRecords, edges_load, edgeRows]

/-- The records after a load, from those before. -/
theorem graphMeta_loadGraph (store : KuzuStore) (data : GraphData) : (loadGraph store data).2.graphMeta =
    ((match data.source with
      | none => store.graphMeta.filter fun key _ => key ≠ SOURCE_MANIFEST_KEY
      | some source => store.graphMeta.set SOURCE_MANIFEST_KEY source.toRecord).filter
        fun key _ => key ≠ RUNTIME_MANIFEST_KEY) := by
  change (loadRecords (store.load data.nodes data.edges).1 data.source).graphMeta = _
  unfold loadRecords clearGraphMeta writeGraphMeta
  cases data.source with
  | none => rw [graphMeta_load]
  | some source => rw [graphMeta_load]

theorem get_cleared {records : OrderedMap String Metadata} {key cleared : String} (h : key ≠ cleared) :
    (records.filter fun other _ => other ≠ cleared).get key = records.get key :=
  OrderedMap.get_filter (q := fun other => other ≠ cleared) (decide_eq_true h)

/-- A load neither writes nor clears other records. -/
theorem readGraphMeta_loadGraph {key : String} (hsource : key ≠ SOURCE_MANIFEST_KEY)
    (hruntime : key ≠ RUNTIME_MANIFEST_KEY) (store : KuzuStore) (data : GraphData) :
    (loadGraph store data).2.readGraphMeta key = store.readGraphMeta key := by
  unfold readGraphMeta
  rw [graphMeta_loadGraph, get_cleared hruntime]
  cases data.source with
  | none => exact get_cleared hsource
  | some source => exact OrderedMap.get_set_ne hsource _

/-- The graph on its own in a fresh database. -/
def loaded (data : GraphData) : KuzuStore := (loadGraph initSchema data).2

theorem kind_of_mem_edges_loaded {key : EdgeKey} (hkey : key ∈ (loaded data).edges.keys) :
    ∃ edge ∈ data.edges, edge.kind = key.kind := by
  rw [loaded, edges_loadGraph, OrderedMap.mem_keys_foldl_set] at hkey
  obtain ⟨entry, hentry, rfl⟩ := List.mem_map.mp (hkey.resolve_left List.not_mem_nil)
  obtain ⟨edge, hedge, rfl⟩ := List.mem_map.mp hentry
  exact ⟨edge, List.mem_of_mem_filter hedge, rfl⟩

/-- A load keeps every relationship it finds. -/
theorem mem_edges_loadGraph {key : EdgeKey} (hkey : key ∈ store.edges.keys) :
    key ∈ (loadGraph store data).2.edges.keys := by
  rw [edges_loadGraph]
  exact OrderedMap.mem_keys_foldl_set.mpr (Or.inl hkey)

theorem graphMeta_loaded (data : GraphData) : (loaded data).graphMeta =
    match data.source with
    | none => ∅
    | some source => OrderedMap.ofList [(SOURCE_MANIFEST_KEY, source.toRecord)] := by
  rw [loaded, graphMeta_loadGraph]
  cases data.source with
  | none => rfl
  | some source => rfl

theorem clear_eq_self {store : KuzuStore} {kind : EdgeKind} (h : ∀ key ∈ store.edges.keys, key.kind ≠ kind) :
    (store.clearEdgesByKind kind).edges = store.edges :=
  OrderedMap.filter_eq_self fun key hkey => decide_eq_true (h key hkey)

/-- The nodes that a load finds as it left them, it leaves as they were. -/
theorem nodes_reload (hkeys : store.nodes.keys = (loaded data).nodes.keys) :
    (loadGraph store data).2.nodes = (loaded data).nodes := by
  rw [loaded, nodes_loadGraph] at hkeys ⊢
  rw [nodes_loadGraph]
  exact OrderedMap.foldl_set_eq_ofList hkeys

theorem edges_reload (hedges : store.edges = (loaded data).edges) :
    (loadGraph store data).2.edges = (loaded data).edges := by
  rw [loaded, edges_loadGraph] at hedges ⊢
  rw [edges_loadGraph]
  exact OrderedMap.foldl_set_eq_ofList (congrArg OrderedMap.keys hedges)

theorem graphMeta_reload
    (hrecords : (store.graphMeta.filter fun key _ => isLoaded key) = (loaded data).graphMeta.filter fun key _ => isLoaded key)
    (hclustering : store.readGraphMeta CLUSTERING_MANIFEST_KEY = none) :
    (loadGraph store data).2.graphMeta = (loaded data).graphMeta := by
  have hloaded : ((loaded data).graphMeta.filter fun key _ => isLoaded key) = (loaded data).graphMeta := by
    rw [graphMeta_loaded]
    cases data.source <;> rfl
  have hruntime : (store.graphMeta.filter fun key _ => key ≠ RUNTIME_MANIFEST_KEY) = (loaded data).graphMeta := by
    rw [← hloaded, ← hrecords]
    refine OrderedMap.ext (List.filter_congr fun entry hentry => ?_)
    have hne : entry.1 ≠ CLUSTERING_MANIFEST_KEY := by
      intro heq
      have hkey : entry.1 ∈ store.graphMeta.keys := List.mem_map_of_mem hentry
      exact OrderedMap.get_eq_none_iff.mp hclustering (heq ▸ hkey)
    simp [isLoaded, hne]
  rw [graphMeta_loadGraph, graphMeta_loaded]
  rw [graphMeta_loaded] at hruntime
  cases hsource : data.source with
  | none =>
    rw [hsource] at hruntime
    dsimp only at hruntime ⊢
    refine OrderedMap.ext (List.filter_eq_nil_iff.mpr fun entry hentry => ?_)
    have hmem : entry ∈ store.graphMeta.entries := List.mem_of_mem_filter hentry
    have hnone := List.filter_eq_nil_iff.mp (congrArg OrderedMap.entries hruntime) entry hmem
    exact hnone
  | some source =>
    rw [hsource] at hruntime
    dsimp only at hruntime ⊢
    have hkeep : ∀ _ : Metadata, decide (SOURCE_MANIFEST_KEY ≠ RUNTIME_MANIFEST_KEY) = true := fun _ => by decide
    rw [OrderedMap.filter_set_of hkeep, hruntime]
    rfl

/-- Loading a graph again gives the database of a fresh load exactly when no
clustering has run since, and enrichment has left no runtime call edge. -/
theorem reload_eq_loaded_iff (data : GraphData) (hstatic : ∀ edge ∈ data.edges, edge.kind ≠ .CALLS_RUNTIME)
    (derivations : List Derivation) :
    (loadGraph (derivations.foldl Derivation.run (loaded data)) data).2 = loaded data ↔
      (∀ derivation ∈ derivations, derivation.detects = false) ∧
        ∀ key ∈ (derivations.foldl Derivation.run (loaded data)).edges.keys, key.kind ≠ .CALLS_RUNTIME := by
  set store := derivations.foldl Derivation.run (loaded data)
  have hframe : Frame (loaded data) store := frame_foldl derivations (loaded data)
  have hclustering : (loaded data).readGraphMeta CLUSTERING_MANIFEST_KEY = none :=
    readGraphMeta_loadGraph (by decide) (by decide) initSchema data
  have hloaded : ∀ key ∈ (loaded data).edges.keys, key.kind ≠ .CALLS_RUNTIME := by
    intro key hkey
    obtain ⟨edge, hedge, hkind⟩ := kind_of_mem_edges_loaded hkey
    exact hkind ▸ hstatic edge hedge
  constructor
  · intro hreload
    constructor
    · refine ((readGraphMeta_foldl derivations (loaded data)).mp ?_).1
      rw [← readGraphMeta_loadGraph (by decide) (by decide) _ data, hreload]
      exact hclustering
    · intro key hkey
      have hafter : key ∈ (loadGraph store data).2.edges.keys := mem_edges_loadGraph hkey
      rw [hreload] at hafter
      exact hloaded key hafter
  · rintro ⟨hdetects, hcalls⟩
    refine KuzuStore.ext (nodes_reload hframe.keys) (edges_reload ?_) (graphMeta_reload hframe.records ?_)
    · rw [← clear_eq_self hcalls, hframe.static, clear_eq_self hloaded]
    · exact (readGraphMeta_foldl derivations (loaded data)).mpr ⟨hdetects, hclustering⟩

/-- Two enrichments, the second of which finds no call. -/
def callThenIdle : List Derivation := [.enrich profileHost "/app" callText, .enrich profileHost "/app" idleText]

theorem reload_eq_loaded_iff_twoFunctions : (∀ edge ∈ twoFunctions.edges, edge.kind ≠ .CALLS_RUNTIME) ∧
    ((loadGraph (callThenIdle.foldl Derivation.run (loaded twoFunctions)) twoFunctions).2 = loaded twoFunctions ↔
      (∀ derivation ∈ callThenIdle, derivation.detects = false) ∧
        ∀ key ∈ (callThenIdle.foldl Derivation.run (loaded twoFunctions)).edges.keys, key.kind ≠ .CALLS_RUNTIME) :=
  ⟨by decide, reload_eq_loaded_iff twoFunctions (by decide) callThenIdle⟩

/-- Neither the manifest of a clustering nor the runtime call edges of a
successful enrichment are gone after a reload. -/
theorem reload_keeps_derived :
    (loadGraph (Derivation.run (loaded twoFunctions)
        (.cluster oneCommunity CLUSTER_EDGE_WEIGHTS DEFAULT_COMMUNITY_OPTIONS)) twoFunctions).2 ≠ loaded twoFunctions ∧
      ((RuntimeEnricher.enrich profileHost callText "/app").exec (loaded twoFunctions)).1.isOk = true ∧
      (loadGraph (Derivation.run (loaded twoFunctions) (.enrich profileHost "/app" callText)) twoFunctions).2 ≠
        loaded twoFunctions := by
  refine ⟨fun h => ?_, by decide +kernel, fun h => ?_⟩
  · have hrecords := congrArg (fun store : KuzuStore => store.graphMeta.keys) h
    revert hrecords
    decide +kernel
  · have hedges := congrArg (fun store : KuzuStore => store.edges.keys.length) h
    revert hedges
    decide +kernel

end codespine.commands.LoadCommand
