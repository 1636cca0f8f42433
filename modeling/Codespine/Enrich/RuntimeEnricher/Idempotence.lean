import Codespine.Enrich.RuntimeEnricher.Latest
import Codespine.Enrich.RuntimeJoin.CallEdges
import Codespine.Store.KuzuStore.Load

open codespine.schema codespine.store codespine.store.KuzuStore

namespace codespine.enrich.RuntimeEnricher

variable {host : Host} {root profileText : String}

section Edges

variable {targets : List RuntimeTargetNode} {callEdges : List RuntimeCallEdge} {edgeResult : RuntimeCallJoinResult}

/-- The relationship a record is written as. -/
def relationshipOf (edge : RuntimeEdge) : EdgeKey × Metadata :=
  (⟨edge.source, edge.target, RUNTIME_CALL_EDGE_KIND⟩,
    OrderedMap.ofList [("source", .str RUNTIME_SOURCE_CPU_PROFILE), ("samples", .num edge.samples)])

/-- No two records of a join are of one pair. -/
theorem nodup_relationships (hjoin : RuntimeJoin.joinCallEdges host targets callEdges root = .ok edgeResult) :
    ((edgeResult.edges.map relationshipOf).map Prod.fst).Nodup := by
  rw [RuntimeJoin.joinCallEdges_eq_ok hjoin]
  have hkeys : (RuntimeJoin.countCalls host targets root callEdges).result.edges.map
      (fun edge => RuntimeJoin.arrow (edge.source, edge.target)) =
      (RuntimeJoin.countCalls host targets root callEdges).aggregated.keys := by
    change (List.map Prod.snd _).map _ = List.map Prod.fst _
    rw [List.map_map]
    refine List.map_congr_left fun entry hentry => ?_
    exact (RuntimeJoin.get_aggregated (OrderedMap.get_eq_some_iff.mpr hentry)).1.symm
  have hnodup := (RuntimeJoin.countCalls host targets root callEdges).aggregated.nodup_keys
  rw [← hkeys] at hnodup
  rw [List.map_map]
  refine List.Nodup.of_map (fun key => RuntimeJoin.arrow (key.source, key.target)) ?_
  rw [List.map_map]
  exact hnodup

/-- A record of a join is of two nodes of the database. -/
theorem ends_of_join {store : KuzuStore}
    (hjoin : RuntimeJoin.joinCallEdges host (targetsOf store) callEdges root = .ok edgeResult) {record : RuntimeEdge}
    (hrecord : record ∈ edgeResult.edges) : record.source ∈ store.nodes.keys ∧ record.target ∈ store.nodes.keys := by
  have hmem : ∀ {frame node}, RuntimeJoin.nodeOf host (targetsOf store) root frame = some node →
      node.id ∈ store.nodes.keys := by
    intro frame node hnode
    obtain ⟨stored, hstored, rfl⟩ := List.mem_map.mp (RuntimeJoin.mem_of_nodeOf hnode)
    rw [← readNodes_ids]
    exact List.mem_map_of_mem hstored
  rw [RuntimeJoin.joinCallEdges_eq_ok hjoin] at hrecord
  obtain ⟨_, _, caller, callee, hcaller, hcallee, _, hsource, htarget⟩ := RuntimeJoin.ends_of_mem_edges hrecord
  rw [hsource, htarget]
  exact ⟨hmem hcaller, hmem hcallee⟩

variable {ingested : Ingest} {store : KuzuStore}
  (hjoin : RuntimeJoin.joinCallEdges host (targetsOf store) (CpuProfile.callEdges ingested.profile) root =
    .ok ingested.edgeResult)

include hjoin

/-- A run leaves of the runtime call edges those of its own join, and of the
others all. -/
theorem edges_apply :
    (ingested.apply store).edges.entries =
      (store.clearEdgesByKind RUNTIME_CALL_EDGE_KIND).edges.entries ++ ingested.edgeResult.edges.map relationshipOf := by
  have hends : ∀ edge ∈ ingested.edgeResult.edges.map toCallEdge,
      edge.source ∈ store.nodes.keys ∧ edge.target ∈ store.nodes.keys := by
    intro edge hedge
    obtain ⟨record, hrecord, rfl⟩ := List.mem_map.mp hedge
    exact ends_of_join hjoin hrecord
  have hwritten : relationships store.nodes.keys
      (ingested.edgeResult.edges.map toCallEdge) = ingested.edgeResult.edges.map relationshipOf := by
    rw [relationships, List.filter_eq_self.mpr fun edge hedge => decide_eq_true (hends edge hedge), List.map_map]
    rfl
  have hcleared : ∀ entry ∈ (store.clearEdgesByKind RUNTIME_CALL_EDGE_KIND).edges.entries,
      entry.1.kind ≠ RUNTIME_CALL_EDGE_KIND := fun entry hentry => of_decide_eq_true (List.mem_filter.mp hentry).2
  rw [Ingest.apply, rewire, edges_writeEdges, nodes_clearEdgesByKind, keys_annotate, hwritten, edges_clearEdgesByKind,
    edges_annotate]
  refine OrderedMap.entries_foldl_set_of_new ?_
  rw [List.map_append]
  refine (store.clearEdgesByKind RUNTIME_CALL_EDGE_KIND).edges.nodup_keys.append (nodup_relationships hjoin) ?_
  intro key hold hnew
  obtain ⟨entry, hentry, rfl⟩ := List.mem_map.mp hold
  obtain ⟨_, hrecord, hkey⟩ := List.mem_map.mp hnew
  obtain ⟨record, _, rfl⟩ := List.mem_map.mp hrecord
  exact hcleared entry hentry (congrArg EdgeKey.kind hkey).symm

theorem runtimeEdges_apply :
    ((ingested.apply store).edges.filter fun key _ => key.kind = .CALLS_RUNTIME).entries =
      ingested.edgeResult.edges.map relationshipOf := by
  have hcleared : (store.clearEdgesByKind RUNTIME_CALL_EDGE_KIND).edges.entries.filter
      (fun entry => decide (entry.1.kind = .CALLS_RUNTIME)) = [] := by
    refine List.filter_eq_nil_iff.mpr fun entry hentry hkind => ?_
    exact of_decide_eq_true (List.mem_filter.mp hentry).2 (of_decide_eq_true hkind)
  have hwritten : (ingested.edgeResult.edges.map relationshipOf).filter
      (fun entry => decide (entry.1.kind = .CALLS_RUNTIME)) = ingested.edgeResult.edges.map relationshipOf := by
    refine List.filter_eq_self.mpr fun entry hentry => ?_
    obtain ⟨record, _, rfl⟩ := List.mem_map.mp hentry
    rfl
  change (ingested.apply store).edges.entries.filter _ = _
  rw [edges_apply hjoin, List.filter_append, hcleared, hwritten, List.nil_append]

end Edges

section Rows

/-- A run puts metrics into the rows it attributes to. -/
theorem get_nodes_apply (ingested : Ingest) {store : KuzuStore} {id : String} {row : NodeRow}
    (hrow : store.nodes.get id = some row) : (ingested.apply store).nodes.get id =
      some { row with metadata := withRuntime ingested.result.attributions id row.metadata } := by
  rw [OrderedMap.get_eq_some_iff, entries_apply]
  exact List.mem_map.mpr ⟨(id, row), OrderedMap.get_eq_some_iff.mp hrow, rfl⟩

theorem get_withRuntime_ne (attributions : OrderedMap String RuntimeAttribution) (id : String) (metadata : Metadata)
    {key : String} (hkey : key ≠ RUNTIME_METADATA_KEY) :
    (withRuntime attributions id metadata).get key = metadata.get key := by
  unfold withRuntime
  cases attributions.get id with
  | none => rfl
  | some attribution => exact OrderedMap.get_set_ne hkey _

end Rows

section Again

theorem withRuntime_withRuntime (attributions : OrderedMap String RuntimeAttribution) (id : String)
    (metadata : Metadata) :
    withRuntime attributions id (withRuntime attributions id metadata) = withRuntime attributions id metadata := by
  unfold withRuntime
  cases attributions.get id with
  | none => rfl
  | some attribution => exact OrderedMap.set_set _ _ _ _

/-- A second run writes what the first has written. -/
theorem apply_apply (ingested : Ingest) (store : KuzuStore) :
    ingested.apply (ingested.apply store) = ingested.apply store := by
  refine KuzuStore.ext (OrderedMap.ext ?_) ?_ ?_
  · rw [entries_apply, entries_apply, List.map_map]
    refine List.map_congr_left fun entry _ => ?_
    rw [Function.comp_apply, withRuntime_withRuntime]
  · exact edges_apply_congr ingested (keys_of_entries_eq_map (entries_apply ingested store)) (clear_apply ingested store)
  · rw [graphMeta_apply, graphMeta_apply, OrderedMap.set_set]

/-- A node as a run leaves it. -/
def afterRun (attributions : OrderedMap String RuntimeAttribution) (node : StoredNode) : StoredNode :=
  { node with metadata := withRuntime attributions node.id node.metadata }

theorem readNodes_apply (ingested : Ingest) (store : KuzuStore) :
    (ingested.apply store).readNodes = store.readNodes.map (afterRun ingested.result.attributions) := by
  unfold readNodes
  rw [entries_apply, List.map_map, List.map_map]
  rfl

theorem get_nodesById_apply (ingested : Ingest) (store : KuzuStore) (id : String) :
    (nodesById (ingested.apply store).readNodes).get id =
      ((nodesById store.readNodes).get id).map (afterRun ingested.result.attributions) := by
  have hentries : ∀ store : KuzuStore, (nodesById store.readNodes).entries =
      store.readNodes.map fun node => (node.id, node) := by
    intro store
    refine OrderedMap.entries_ofList ?_
    rw [List.map_map]
    exact readNodes_nodup store
  have hlookup := OrderedMap.lookup_map (fun _ node => afterRun ingested.result.attributions node) id
    (nodesById store.readNodes).entries
  rw [OrderedMap.get, OrderedMap.get, ← hlookup, hentries, hentries, readNodes_apply, List.map_map, List.map_map]
  rfl

/-- The report is about what a run does not touch. -/
theorem report_apply (ingested : Ingest) (store : KuzuStore) :
    report (ingested.apply store).readNodes ingested.profile ingested.result ingested.edgeResult =
      report store.readNodes ingested.profile ingested.result ingested.edgeResult := by
  have hhotspots : hotspots (ingested.apply store).readNodes ingested.result.attributions =
      hotspots store.readNodes ingested.result.attributions := by
    unfold hotspots
    refine congrArg (fun f => List.filterMap f _) (funext fun entry => ?_)
    rw [get_nodesById_apply, Option.map_map]
    rfl
  have hids : ∀ nodes, (updates nodes ingested.result.attributions).map Prod.fst =
      ingested.result.attributions.entries.filterMap fun entry => ((nodesById nodes).get entry.1).map fun _ => entry.1 := by
    intro nodes
    simp only [updates, List.map_filterMap, Option.map_map, Function.comp_def]
  have hupdates : (updates (ingested.apply store).readNodes ingested.result.attributions).length =
      (updates store.readNodes ingested.result.attributions).length := by
    rw [← List.length_map Prod.fst, ← List.length_map Prod.fst, hids, hids]
    refine congrArg (fun f => (List.filterMap f _).length) (funext fun entry => ?_)
    rw [get_nodesById_apply, Option.map_map]
    rfl
  simp only [report, hhotspots, hupdates]

/-- After a run that succeeds the same run succeeds, with the same report. -/
theorem exec_again {ingested : Ingest} {store : KuzuStore}
    (hingest : ingest host root (targetsOf store) profileText = .ok ingested) :
    (enrich host profileText root).exec (ingested.apply store) =
      (.ok (report store.readNodes ingested.profile ingested.result ingested.edgeResult), ingested.apply store) := by
  refine exec_enrich_eq_ok_iff.mpr ⟨ingested, ?_, report_apply ingested store, apply_apply ingested store⟩
  rw [targetsOf_apply, hingest]

end Again

/-- A run on a database changes its runtime layer and nothing else, and a
second run changes nothing. -/
theorem enrich_frame_idempotent {store after : KuzuStore} {report : EnrichReport}
    (hrun : (enrich host profileText root).exec store = (.ok report, after)) :
    ∃ ingested : Ingest, CpuProfile.parse host profileText = .ok ingested.profile ∧
      RuntimeJoin.join host (targetsOf store) (CpuProfile.aggregate ingested.profile) root = .ok ingested.result ∧
      RuntimeJoin.joinCallEdges host (targetsOf store) (CpuProfile.callEdges ingested.profile) root =
        .ok ingested.edgeResult ∧
      after.nodes.keys = store.nodes.keys ∧
      (∀ id row, store.nodes.get id = some row → ∃ metadata,
        after.nodes.get id = some { row with metadata } ∧
        (ingested.result.attributions.get id = none → metadata = row.metadata) ∧
        ∀ key, key ≠ RUNTIME_METADATA_KEY → metadata.get key = row.metadata.get key) ∧
      (after.edges.filter fun key _ => key.kind ≠ .CALLS_RUNTIME) =
        (store.edges.filter fun key _ => key.kind ≠ .CALLS_RUNTIME) ∧
      (after.edges.filter fun key _ => key.kind = .CALLS_RUNTIME).entries =
        ingested.edgeResult.edges.map relationshipOf ∧
      (∀ key, key ≠ RUNTIME_MANIFEST_KEY → after.readGraphMeta key = store.readGraphMeta key) ∧
      (enrich host profileText root).exec after = (.ok report, after) := by
  obtain ⟨ingested, hingest, rfl, rfl⟩ := exec_enrich_eq_ok_iff.mp hrun
  obtain ⟨hparse, hjoin, hedges⟩ := ingest_eq_ok_iff.mp hingest
  refine ⟨ingested, hparse, hjoin, hedges, keys_of_entries_eq_map (entries_apply ingested store), ?_,
    clear_apply ingested store, runtimeEdges_apply hedges, ?_, exec_again hingest⟩
  · intro id row hrow
    refine ⟨_, get_nodes_apply ingested hrow, fun hnone => ?_, fun key hkey => get_withRuntime_ne _ id row.metadata hkey⟩
    rw [withRuntime, hnone]
  · intro key hkey
    rw [readGraphMeta, graphMeta_apply, OrderedMap.get_set_ne hkey]
    rfl

/-- `render` of a community calls `parse`, in the source and, as an earlier run
has it, at run time. -/
def clusteredStore : KuzuStore :=
  ((initSchema.load [functionNode "parse" 1 9,
      { functionNode "render" 11 19 with metadata := some (OrderedMap.ofList [("community", .num 2)]) }]
    [{ id := "CALLS:render->parse", kind := .CALLS, source := "src/main.ts#render", target := "src/main.ts#parse" },
      { id := "CALLS_RUNTIME:render->parse", kind := .CALLS_RUNTIME, source := "src/main.ts#render",
        target := "src/main.ts#parse" }]).1).writeGraphMeta "community" (OrderedMap.ofList [("count", .num 3)])

theorem enrich_frame_idempotent_render : ∃ report after,
    (enrich twoProfilesHost (oneFrameText "render") "/app").exec clusteredStore = (.ok report, after) ∧
    (∃ row, after.nodes.get "src/main.ts#render" = some row ∧ row.metadata.get "community" = some (.num 2)) ∧
    (after.edges.filter fun key _ => key.kind ≠ .CALLS_RUNTIME).keys =
      [⟨"src/main.ts#render", "src/main.ts#parse", .CALLS⟩] ∧
    (after.readGraphMeta "community").isSome = true ∧
    (enrich twoProfilesHost (oneFrameText "render") "/app").exec after = (.ok report, after) := by
  obtain ⟨report, hrun⟩ := exists_run_of_isOk twoProfilesHost (oneFrameText "render") "/app" clusteredStore
    (by decide +kernel)
  obtain ⟨_, _, _, _, _, hnodes, hstatic, _, hrecords, hagain⟩ := enrich_frame_idempotent hrun
  obtain ⟨metadata, hrow, _, hkept⟩ := hnodes "src/main.ts#render" _ rfl
  refine ⟨report, _, hrun, ⟨_, hrow, ?_⟩, ?_, ?_, hagain⟩
  · exact (hkept "community" (by decide)).trans rfl
  · rw [hstatic]
    decide +kernel
  · rw [hrecords "community" (by decide)]
    decide +kernel

end codespine.enrich.RuntimeEnricher
