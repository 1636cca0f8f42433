import Codespine.Benchmark.NodeBenchmark
import Codespine.Enrich.RuntimeEnricher.Layer

open codespine.schema codespine.store codespine.store.KuzuStore codespine.query codespine.benchmark

namespace codespine.enrich.RuntimeEnricher

variable {host : Host} {root : String}

/-- The last profile reaches every node that an earlier one left changed: a
node it does not reach was reached by none before, or has got back the metrics
it was loaded with. -/
def Covers (host : Host) (root : String) (loaded : KuzuStore) (profileTexts : List String) (profileText : String) :
    Prop :=
  ∀ id ∈ loaded.nodes.keys, (attributionsOf host root loaded profileText).get id = none →
    ∀ runtime, lastRuntime host root loaded profileTexts id = some runtime → runtimeOf loaded id = some runtime

/-- The last of a sequence of runs, next to the same run on the database as it
was loaded. -/
theorem Enriched.exists_alone {loaded before after : KuzuStore} {profileTexts : List String} {profileText : String}
    {report : EnrichReport} (hbefore : Enriched host root loaded profileTexts before)
    (hrun : (enrich host profileText root).exec before = (.ok report, after)) :
    ∃ ingested, ingest host root (targetsOf loaded) profileText = .ok ingested ∧ ingested.apply before = after ∧
      ∃ report', (enrich host profileText root).exec loaded = (.ok report', ingested.apply loaded) := by
  obtain ⟨ingested, hingest, _, hafter⟩ := exec_enrich_eq_ok_iff.mp hrun
  rw [hbefore.descends.targets] at hingest
  exact ⟨ingested, hingest, hafter, _, exec_enrich_eq_ok_iff.mpr ⟨ingested, hingest, rfl, rfl⟩⟩

section Runs

variable {loaded before : KuzuStore} {profileTexts : List String} {profileText : String} {ingested : Ingest}
  (hbefore : Descends host root loaded profileTexts before)
  (hingest : ingest host root (targetsOf loaded) profileText = .ok ingested)

include hbefore

theorem Descends.keys_eq : before.nodes.keys = loaded.nodes.keys := keys_of_entries_eq_map hbefore.entries

include hingest

/-- What the last run leaves of the metadata, row by row. -/
theorem Descends.entries_last : (ingested.apply before).nodes.entries = loaded.nodes.entries.map fun entry =>
    (entry.1, { entry.2 with
      metadata := withRuntime (attributionsOf host root loaded profileText) entry.1
        (stamped (lastRuntime host root loaded profileTexts entry.1) entry.2.metadata) }) := by
  have hattributions : attributionsOf host root loaded profileText = ingested.result.attributions := by
    rw [attributionsOf, hingest]
  rw [entries_apply, hbefore.entries, List.map_map, hattributions]
  rfl

/-- Where the last profile covers the others, nothing of them is left. -/
theorem Descends.apply_eq (hcovers : Covers host root loaded profileTexts profileText) :
    ingested.apply before = ingested.apply loaded := by
  refine KuzuStore.ext (OrderedMap.ext ?_) ?_ ?_
  · rw [hbefore.entries_last hingest, (Descends.refl loaded).entries_last hingest]
    refine List.map_congr_left fun entry hentry => ?_
    have hmetadata : withRuntime (attributionsOf host root loaded profileText) entry.1
        (stamped (lastRuntime host root loaded profileTexts entry.1) entry.2.metadata) =
        withRuntime (attributionsOf host root loaded profileText) entry.1 entry.2.metadata := by
      cases hnone : (attributionsOf host root loaded profileText).get entry.1 with
      | some attribution =>
        rw [withRuntime_stamped, hnone]
        unfold withRuntime
        rw [hnone]
        rfl
      | none =>
        congr 1
        refine (stamped_eq_self_iff _ _).mpr ?_
        cases hlast : lastRuntime host root loaded profileTexts entry.1 with
        | none => rfl
        | some runtime =>
          have hloaded := hcovers entry.1 (List.mem_map_of_mem hentry) hnone runtime hlast
          rw [runtimeOf, OrderedMap.get_eq_some_iff.mpr hentry, Option.bind_some] at hloaded
          exact hloaded.symm
    rw [hmetadata]
    rfl
  · exact edges_apply_congr ingested hbefore.keys_eq hbefore.edges
  · rw [graphMeta_apply, graphMeta_apply, hbefore.graphMeta]

/-- Where it does not, a node still shows what an earlier profile measured. -/
theorem Descends.covers_of_layer (hlayer : runtimeLayer (ingested.apply before) = runtimeLayer (ingested.apply loaded)) :
    Covers host root loaded profileTexts profileText := by
  intro id hid hnone runtime hlast
  obtain ⟨entry, hentry, rfl⟩ := List.mem_map.mp hid
  have hruntime := congrFun (congrArg RuntimeLayer.runtimeOf hlayer) entry.1
  change runtimeOf _ _ = runtimeOf _ _ at hruntime
  have hafter : (ingested.apply before).nodes.get entry.1 = some
      { entry.2 with metadata := stamped (some runtime) entry.2.metadata } := by
    refine OrderedMap.get_eq_some_iff.mpr ?_
    rw [hbefore.entries_last hingest]
    refine List.mem_map.mpr ⟨entry, hentry, ?_⟩
    unfold withRuntime
    rw [hnone, hlast]
  have halone : (ingested.apply loaded).nodes.get entry.1 = some entry.2 := by
    refine OrderedMap.get_eq_some_iff.mpr ?_
    rw [(Descends.refl loaded).entries_last hingest]
    refine List.mem_map.mpr ⟨entry, hentry, ?_⟩
    unfold withRuntime
    rw [hnone]
    rfl
  rw [runtimeOf, runtimeOf, hafter, halone, Option.bind_some, Option.bind_some, get_stamped] at hruntime
  rw [runtimeOf, OrderedMap.get_eq_some_iff.mpr hentry]
  exact hruntime.symm

end Runs

theorem runtimeValue_of_none {metadata : Metadata} (h : metadata.get RUNTIME_METADATA_KEY = none) (key : String) :
    GraphQuery.runtimeValue metadata key = 0 := by
  have h : metadata.get "runtime" = none := h
  rw [GraphQuery.runtimeValue, h]
  rfl

theorem samples_of_metrics (attribution : RuntimeAttribution) (metadata : Metadata) :
    GraphQuery.runtimeValue (metadata.set RUNTIME_METADATA_KEY (toMetrics attribution).toJson) "samples" =
      attribution.samples := by
  have h := OrderedMap.get_set_self metadata "runtime" (toMetrics attribution).toJson
  rw [GraphQuery.runtimeValue, RUNTIME_METADATA_KEY, h]
  rfl

/-- On a graph loaded without metrics, the samples on its nodes add up to those
the manifest calls matched. -/
theorem sum_samples_apply {loaded : KuzuStore} {profileText : String} {ingested : Ingest}
    (hingest : ingest host root (targetsOf loaded) profileText = .ok ingested)
    (hfresh : ∀ id, runtimeOf loaded id = none) :
    ∃ manifest, GraphQuery.readRuntimeManifest (ingested.apply loaded) = some manifest ∧
      ((ingested.apply loaded).readNodes.map fun node => GraphQuery.runtimeValue node.metadata "samples").sum =
        manifest.matchedSamples := by
  refine ⟨manifest ingested.profile ingested.result, ?_, ?_⟩
  · unfold GraphQuery.readRuntimeManifest readGraphMeta
    rw [graphMeta_apply, OrderedMap.get_set_self]
    rfl
  · obtain ⟨hsum, _, _, _, _, _, hknown⟩ := RuntimeJoin.join_balanced (ingest_eq_ok_iff.mp hingest).2.1
    have hids : (targetsOf loaded).map RuntimeTargetNode.id = loaded.nodes.keys := by
      rw [← readNodes_ids, targetsOf, List.map_map]
      rfl
    rw [hids] at hknown
    have hreads := OrderedMap.sum_getD RuntimeAttribution.samples ingested.result.attributions
      (d := { samples := 0, selfMicros := 0 }) rfl loaded.nodes.nodup_keys hknown
    change _ = ingested.result.matchedSamples
    rw [← hsum, ← hreads, OrderedMap.keys, List.map_map]
    unfold readNodes
    rw [entries_apply, List.map_map, List.map_map]
    refine congrArg List.sum (List.map_congr_left fun entry hentry => ?_)
    have hnone := hfresh entry.1
    rw [runtimeOf, OrderedMap.get_eq_some_iff.mpr hentry, Option.bind_some] at hnone
    simp only [Function.comp_apply, withRuntime, OrderedMap.getD]
    cases ingested.result.attributions.get entry.1 with
    | none => exact runtimeValue_of_none hnone "samples"
    | some attribution => exact samples_of_metrics attribution entry.2.metadata

/-- A benchmark reads its metric off the database its last run leaves. -/
theorem measureRuns_append {localeCompare : Comparator String} {id : String} {metric : BenchmarkMetric}
    {profileTexts later : List String} {profileText : String} {store : KuzuStore} {values : List ℚ}
    (h : NodeBenchmark.measureRuns host localeCompare root id metric (profileTexts ++ profileText :: later) store =
      .ok values) :
    ∃ before after report value, Enriched host root store profileTexts before ∧
      (enrich host profileText root).exec before = (.ok report, after) ∧
      NodeBenchmark.readMetric localeCompare after id metric = .ok value ∧
      values[profileTexts.length]? = some value := by
  induction profileTexts generalizing store values with
  | nil =>
    rw [List.nil_append, NodeBenchmark.measureRuns] at h
    split at h
    · cases h
    · next report after hrun =>
      cases hvalue : NodeBenchmark.readMetric localeCompare after id metric with
      | error e => rw [hvalue] at h; cases h
      | ok value =>
        rw [hvalue] at h
        dsimp only [bind, Except.bind] at h
        cases hrest : NodeBenchmark.measureRuns host localeCompare root id metric later after with
        | error e => rw [hrest] at h; cases h
        | ok rest =>
          rw [hrest] at h
          cases h
          exact ⟨store, after, report, value, Enriched.none, hrun, hvalue, rfl⟩
  | cons first profileTexts ih =>
    rw [List.cons_append, NodeBenchmark.measureRuns] at h
    split at h
    · cases h
    · next report middle hfirst =>
      cases hvalue : NodeBenchmark.readMetric localeCompare middle id metric with
      | error e => rw [hvalue] at h; cases h
      | ok value =>
        rw [hvalue] at h
        dsimp only [bind, Except.bind] at h
        cases hrest : NodeBenchmark.measureRuns host localeCompare root id metric
            (profileTexts ++ profileText :: later) middle with
        | error e => rw [hrest] at h; cases h
        | ok rest =>
          rw [hrest] at h
          cases h
          obtain ⟨before, after, report', value', hbefore, hrun, hread, hget⟩ := ih hrest
          exact ⟨before, after, report', value', hbefore.head hfirst, hrun, hread, hget⟩

/-- The latest enrichment wins exactly where it covers the earlier ones: then
the database is the one that the last profile alone makes of the loaded graph,
the samples on its nodes are those the manifest calls matched, and a benchmark
reads in every round the metric of that round's profile. -/
theorem enrich_latest_wins_iff {loaded before after : KuzuStore} {profileTexts : List String} {profileText : String}
    {report : EnrichReport} (hbefore : Enriched host root loaded profileTexts before)
    (hrun : (enrich host profileText root).exec before = (.ok report, after)) :
    ∃ report' alone, (enrich host profileText root).exec loaded = (.ok report', alone) ∧
      (runtimeLayer after = runtimeLayer alone ↔ Covers host root loaded profileTexts profileText) ∧
      (Covers host root loaded profileTexts profileText → after = alone ∧
        ((∀ id, runtimeOf loaded id = none) → ∃ manifest, GraphQuery.readRuntimeManifest after = some manifest ∧
          (after.readNodes.map fun node => GraphQuery.runtimeValue node.metadata "samples").sum =
            manifest.matchedSamples) ∧
        ∀ localeCompare id metric later values, NodeBenchmark.measureRuns host localeCompare root id metric
            (profileTexts ++ profileText :: later) loaded = .ok values →
          ∃ value, NodeBenchmark.readMetric localeCompare alone id metric = .ok value ∧
            values[profileTexts.length]? = some value) := by
  obtain ⟨ingested, hingest, hafter, report', halone⟩ := hbefore.exists_alone hrun
  refine ⟨report', ingested.apply loaded, halone, ?_, fun hcovers => ⟨?_, fun hfresh => ?_, ?_⟩⟩
  · rw [← hafter]
    constructor
    · exact hbefore.descends.covers_of_layer hingest
    · intro hcovers
      rw [hbefore.descends.apply_eq hingest hcovers]
  · rw [← hafter, hbefore.descends.apply_eq hingest hcovers]
  · rw [← hafter, hbefore.descends.apply_eq hingest hcovers]
    exact sum_samples_apply hingest hfresh
  · intro localeCompare id metric later values hvalues
    obtain ⟨before', after', report'', value, hbefore', hrun', hread, hget⟩ := measureRuns_append hvalues
    obtain ⟨ingested', hingest', hafter', -⟩ := hbefore'.exists_alone hrun'
    have hsame : ingested' = ingested := Except.ok.inj (hingest'.symm.trans hingest)
    rw [← hafter', hsame, hbefore'.descends.apply_eq hingest hcovers] at hread
    exact ⟨value, hread, hget⟩

/-- A profile of one function, hit by one tick. -/
def oneFrameText (functionName : String) : String :=
  "\x7b\"nodes\":[\x7b\"id\":1,\"callFrame\":\x7b\"functionName\":\"" ++ functionName ++
  "\",\"url\":\"file:///app/src/main.ts\",\"lineNumber\":0,\"columnNumber\":0\x7d\x7d]," ++
  "\"samples\":[1],\"timeDeltas\":[1000]\x7d"

def oneFrameJson (functionName : String) : Json :=
  .obj [
    ("nodes", .arr [
      .obj [
        ("id", .num 1),
        ("callFrame", .obj [("functionName", .str functionName), ("url", .str "file:///app/src/main.ts"),
          ("lineNumber", .num 0), ("columnNumber", .num 0)])]]),
    ("samples", .arr [.num 1]),
    ("timeDeltas", .arr [.num 1000])]

def twoProfilesHost : Host :=
  posixHost [(oneFrameText "parse", oneFrameJson "parse"), (oneFrameText "render", oneFrameJson "render")]

def functionNode (name : String) (startLine endLine : ℤ) : GraphNode where
  id := "src/main.ts#" ++ name
  kind := .Function
  name := name
  filePath := "src/main.ts"
  range := some ⟨startLine, 0, endLine, 0⟩

/-- A freshly loaded graph of two functions. -/
def twoFunctionStore : KuzuStore :=
  (KuzuStore.initSchema.load [functionNode "parse" 1 9, functionNode "render" 11 19] []).1

theorem exists_run_of_isOk (host : Host) (profileText root : String) (store : KuzuStore)
    (h : ((enrich host profileText root).exec store).1.isOk = true) :
    ∃ report, (enrich host profileText root).exec store =
      (.ok report, ((enrich host profileText root).exec store).2) := by
  cases hrun : (enrich host profileText root).exec store with
  | mk outcome after =>
    rw [hrun] at h
    cases outcome with
    | error e => cases h
    | ok report => exact ⟨report, rfl⟩

theorem enrich_latest_wins_iff_twice : ∃ before after report, Enriched twoProfilesHost "/app" twoFunctionStore
    [oneFrameText "parse"] before ∧
    (enrich twoProfilesHost (oneFrameText "parse") "/app").exec before = (.ok report, after) ∧
    ∃ report' alone, (enrich twoProfilesHost (oneFrameText "parse") "/app").exec twoFunctionStore =
        (.ok report', alone) ∧
      (runtimeLayer after = runtimeLayer alone ↔
        Covers twoProfilesHost "/app" twoFunctionStore [oneFrameText "parse"] (oneFrameText "parse")) := by
  obtain ⟨_, hfirst⟩ := exists_run_of_isOk twoProfilesHost (oneFrameText "parse") "/app"
    twoFunctionStore (by decide +kernel)
  have hbefore := Enriched.run Enriched.none hfirst
  obtain ⟨report, hrun⟩ := exists_run_of_isOk twoProfilesHost (oneFrameText "parse") "/app"
    ((enrich twoProfilesHost (oneFrameText "parse") "/app").exec twoFunctionStore).2 (by decide +kernel)
  obtain ⟨report', alone, halone, hlayer, -⟩ := enrich_latest_wins_iff hbefore hrun
  exact ⟨_, _, report, hbefore, hrun, report', alone, halone, hlayer⟩

/-- A profile that misses a function leaves it the metrics of the profile
before. -/
theorem enrich_keeps_stale_metrics : ¬ ∀ before after alone report report',
    Enriched twoProfilesHost "/app" twoFunctionStore [oneFrameText "parse"] before →
    (enrich twoProfilesHost (oneFrameText "render") "/app").exec before = (.ok report, after) →
    (enrich twoProfilesHost (oneFrameText "render") "/app").exec twoFunctionStore = (.ok report', alone) →
    runtimeLayer after = runtimeLayer alone := by
  intro hwins
  obtain ⟨_, hfirst⟩ := exists_run_of_isOk twoProfilesHost (oneFrameText "parse") "/app"
    twoFunctionStore (by decide +kernel)
  obtain ⟨_, hrun⟩ := exists_run_of_isOk twoProfilesHost (oneFrameText "render") "/app"
    ((enrich twoProfilesHost (oneFrameText "parse") "/app").exec twoFunctionStore).2 (by decide +kernel)
  obtain ⟨_, halone⟩ := exists_run_of_isOk twoProfilesHost (oneFrameText "render") "/app"
    twoFunctionStore (by decide +kernel)
  have hlayer := hwins _ _ _ _ _ (Enriched.run Enriched.none hfirst) hrun halone
  have hruntime := congrArg Option.isSome (congrFun (congrArg RuntimeLayer.runtimeOf hlayer) "src/main.ts#parse")
  revert hruntime
  decide +kernel

end codespine.enrich.RuntimeEnricher
