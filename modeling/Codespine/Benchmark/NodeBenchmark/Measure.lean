import Codespine.Benchmark.BenchmarkStats
import Codespine.Benchmark.NodeBenchmark.Target
import Codespine.Enrich.RuntimeEnricher.Latest
import Codespine.Lib.Loop
import Codespine.Query.CostRanking.Linear

open codespine.schema codespine.store codespine.enrich codespine.enrich.RuntimeEnricher codespine.query
open codespine.query.GraphQuery loop

namespace codespine.benchmark

structure NodeBenchmarkOptions where
  target : String
  metric : Option BenchmarkMetric := none
  runs : Option JsNumber := none
  baselineMedian : Option ℚ := none

structure BenchmarkReport where
  target : BenchmarkTarget
  metric : BenchmarkMetric
  unit : String
  stats : BenchmarkStatsSummary
  delta : Option BenchmarkDelta
  advisory : String

/-- What makes a benchmark throw: the target, a run, or the statistics. -/
inductive MeasureError where
  | target (message : String)
  | run (error : BenchmarkError)
  | stats (message : String)

namespace NodeBenchmark

def DEFAULT_RUNS : ℕ := 5
def MIN_RUNS : ℕ := 1
def MAX_RUNS : ℕ := 50

def clampRuns : JsNumber → ℕ
  | .nonFinite => DEFAULT_RUNS
  | .finite runs => (min (MAX_RUNS : ℤ) (max (MIN_RUNS : ℤ) ⌊runs⌋)).toNat

/-- `Math.round(value * 1000) / 1000`. -/
def round (value : ℚ) : ℚ := ⌊value * 1000 + 1 / 2⌋ / 1000

def buildAdvisory (host : Host) (stats : BenchmarkStatsSummary) (unit : String) : String :=
  "Advisory — runtime measurement is noisy. This is the median of " ++ host.showNumber stats.runs ++
    " run(s) (spread " ++ host.showNumber (round stats.spread) ++ " " ++ unit ++
    "), not a deterministic guarantee. Unlike the verify gate (hard pass/fail), " ++
    "a benchmark delta is indicative, not proof."

def runsOf (options : NodeBenchmarkOptions) : ℕ := clampRuns (options.runs.getD (.finite DEFAULT_RUNS))

/-- What the report says of the values of the runs. -/
def reportOf (host : Host) (options : NodeBenchmarkOptions) (target : BenchmarkTarget) (stats : BenchmarkStatsSummary) :
    BenchmarkReport :=
  let metric := options.metric.getD .selfTime
  let unit := if metric = .samples then "samples" else "ms"
  { target
    metric
    unit
    stats
    delta := options.baselineMedian.map fun baselineMedian => BenchmarkStats.delta baselineMedian stats.median
    advisory := buildAdvisory host stats unit }

/-- A benchmark of the target, where `profileText run` is the profile that the
workload writes in that run. -/
def measure (host : Host) (localeCompare : Comparator String) (lower : String → String) (root : String)
    (store : KuzuStore) (options : NodeBenchmarkOptions) (profileText : ℕ → String) :
    Except MeasureError BenchmarkReport := do
  let target ← (resolveTarget lower store options.target).mapError .target
  let profileTexts := (List.range (runsOf options)).map profileText
  let values ← (measureRuns host localeCompare root target.id (options.metric.getD .selfTime) profileTexts
    store).mapError .run
  let stats ← (BenchmarkStats.summarize values).mapError .stats
  return reportOf host options target stats

theorem clampRuns_bounds (runs : JsNumber) : MIN_RUNS ≤ clampRuns runs ∧ clampRuns runs ≤ MAX_RUNS := by
  cases runs with
  | nonFinite => decide
  | finite runs =>
    simp only [clampRuns, MIN_RUNS, MAX_RUNS]
    omega

/-- The metric that the profile of one run alone gives. -/
def metricAlone (host : Host) (localeCompare : Comparator String) (root : String) (loaded : KuzuStore) (id : String)
    (metric : BenchmarkMetric) (profileText : String) : Except BenchmarkError ℚ :=
  match (enrich host profileText root).exec loaded with
  | (.error e, _) => .error (.profiling e)
  | (.ok _, alone) => readMetric localeCompare alone id metric

/-- The nodes whose metrics make up that of the target. -/
def watched (store : KuzuStore) (id : String) : BenchmarkMetric → List String
  | .inclusiveTime => store.nodes.keys
  | _ => [id]

/-- Of the given nodes, the profiles all reach the same. -/
def Alike (host : Host) (root : String) (store : KuzuStore) (ids profileTexts : List String) : Prop :=
  ∀ id ∈ ids, ∀ profileText ∈ profileTexts, ∀ other ∈ profileTexts,
    (attributionsOf host root store profileText).get id = none → (attributionsOf host root store other).get id = none

theorem Alike.perm {host : Host} {root : String} {store : KuzuStore} {ids profileTexts profileTexts' : List String}
    (h : Alike host root store ids profileTexts) (hperm : profileTexts.Perm profileTexts') :
    Alike host root store ids profileTexts' := fun id hid profileText htext other hother =>
  h id hid profileText (hperm.mem_iff.mpr htext) other (hperm.mem_iff.mpr hother)

section Runs

variable {host : Host} {localeCompare : Comparator String} {root id : String} {metric : BenchmarkMetric}
  {loaded before : KuzuStore} {profileTexts : List String} {profileText : String} {ingested : Ingest}

theorem lastRuntime_eq_none (h : ∀ profileText ∈ profileTexts,
    (attributionsOf host root loaded profileText).get id = none) :
    lastRuntime host root loaded profileTexts id = none := by
  induction profileTexts using List.reverseRecOn with
  | nil => rfl
  | append_singleton earlier profileText ih =>
    rw [lastRuntime_append, h profileText (List.mem_append_right _ (List.mem_singleton.mpr rfl))]
    exact ih fun text htext => h text (List.mem_append_left _ htext)

/-- The row that a run leaves of a node it reaches, or that no run before has
reached. -/
theorem get_apply_of_last (hbefore : Descends host root loaded profileTexts before)
    (hingest : ingest host root (targetsOf loaded) profileText = .ok ingested)
    (hlast : (attributionsOf host root loaded profileText).get id = none →
      lastRuntime host root loaded profileTexts id = none) :
    (ingested.apply before).nodes.get id = (ingested.apply loaded).nodes.get id := by
  have hrows : ∀ {texts : List String} {store : KuzuStore}, Descends host root loaded texts store →
      (ingested.apply store).nodes = loaded.nodes.map fun id row => { row with
        metadata := withRuntime (attributionsOf host root loaded profileText) id
          (stamped (lastRuntime host root loaded texts id) row.metadata) } :=
    fun h => OrderedMap.ext (h.entries_last hingest)
  rw [hrows hbefore, hrows (Descends.refl loaded), OrderedMap.get_map, OrderedMap.get_map]
  cases hreached : (attributionsOf host root loaded profileText).get id with
  | none =>
    rw [hlast hreached]
    rfl
  | some attribution => simp only [withRuntime_stamped, hreached]

/-- A node of the graph, as a stored node. -/
def storedNode (id : String) (row : NodeRow) : StoredNode where
  id := id
  kind := row.kind
  name := row.name
  filePath := row.filePath
  startLine := row.startLine
  endLine := row.endLine
  metadata := row.metadata

theorem get_nodeById_readNodes (store : KuzuStore) (id : String) :
    (nodeById store.readNodes).get id = (store.nodes.get id).map (storedNode id) := by
  have hkeys : (store.readNodes.map fun node => (node.id, node)).map Prod.fst = store.nodes.keys := by
    rw [List.map_map]
    exact store.readNodes_ids
  cases hrow : store.nodes.get id with
  | none => exact OrderedMap.get_ofList_eq_none (hkeys ▸ OrderedMap.get_eq_none_iff.mp hrow)
  | some row =>
    refine OrderedMap.get_ofList_of_mem (hkeys ▸ store.nodes.nodup_keys) ?_
    exact List.mem_map_of_mem (List.mem_map_of_mem (OrderedMap.get_eq_some_iff.mp hrow))

/-- A node's own metric stands in its row. -/
theorem readMetric_own (hmetric : metric ≠ .inclusiveTime) (store : KuzuStore) :
    readMetric localeCompare store id metric =
      match store.nodes.get id with
      | none => .error (.targetGone id)
      | some row => .ok (runtimeValue row.metadata (metricKey (if metric = .samples then .samples else .selfTime))) := by
  simp only [readMetric, costAttribution, attributeCost, get_nodeById_readNodes]
  cases hrow : store.nodes.get id with
  | none => rfl
  | some row =>
    have hnode : storedNode id row ∈ store.readNodes := List.mem_map_of_mem (OrderedMap.get_eq_some_iff.mp hrow)
    change Except.ok (if metric = .inclusiveTime then _ else (computeCostModel _ _ _).selfCost.getD id 0) = _
    rw [if_neg hmetric, selfCost_eq store.readNodes_nodup]
    exact congrArg Except.ok (own_of_mem store.readNodes_nodup hnode)

/-- What a benchmark reads after a run is what it would read had there been no
run before. -/
theorem readMetric_apply (hbefore : Descends host root loaded profileTexts before)
    (hingest : ingest host root (targetsOf loaded) profileText = .ok ingested)
    (hlast : ∀ node ∈ watched loaded id metric, (attributionsOf host root loaded profileText).get node = none →
      lastRuntime host root loaded profileTexts node = none) :
    readMetric localeCompare (ingested.apply before) id metric =
      readMetric localeCompare (ingested.apply loaded) id metric := by
  by_cases hmetric : metric = .inclusiveTime
  · subst hmetric
    rw [hbefore.apply_eq hingest fun node hnode hnone runtime hruntime => ?_]
    rw [hlast node hnode hnone] at hruntime
    cases hruntime
  · have hid : id ∈ watched loaded id metric := by
      cases metric with
      | inclusiveTime => exact absurd rfl hmetric
      | selfTime | samples => exact List.mem_singleton.mpr rfl
    rw [readMetric_own hmetric, readMetric_own hmetric, get_apply_of_last hbefore hingest (hlast id hid)]

/-- A run fails on what it sees of the database, whatever metrics are there. -/
theorem exec_enrich_of_error {error : HostError} {store : KuzuStore}
    (h : ingest host root (targetsOf store) profileText = .error error) :
    ∃ left, (enrich host profileText root).exec store = (.error error, left) := by
  rw [exec_enrich]
  unfold ingest at h
  cases hparse : CpuProfile.parse host profileText with
  | error e =>
    rw [hparse] at h
    cases h
    exact ⟨_, rfl⟩
  | ok profile =>
    rw [hparse] at h
    dsimp only [bind, Except.bind] at h ⊢
    cases hjoin : RuntimeJoin.join host (targetsOf store) (CpuProfile.aggregate profile) root with
    | error e =>
      rw [hjoin] at h
      cases h
      exact ⟨_, rfl⟩
    | ok result =>
      rw [hjoin] at h
      dsimp only at h ⊢
      cases hedges : RuntimeJoin.joinCallEdges host (targetsOf store) (CpuProfile.callEdges profile) root with
      | error e =>
        rw [hedges] at h
        cases h
        exact ⟨_, rfl⟩
      | ok edgeResult =>
        rw [hedges] at h
        cases h

/-- Where the profiles reach the same nodes, each run measures what it would
alone, and the loop is a pass over the profiles. -/
theorem measureRuns_alike (hbefore : Descends host root loaded profileTexts before) {later : List String}
    (halike : Alike host root loaded (watched loaded id metric) (profileTexts ++ later)) :
    measureRuns host localeCompare root id metric later before =
      later.mapM (metricAlone host localeCompare root loaded id metric) := by
  induction later generalizing profileTexts before with
  | nil => rfl
  | cons profileText rest ih =>
    rw [measureRuns, List.mapM_cons, metricAlone]
    cases hingest : ingest host root (targetsOf loaded) profileText with
    | error e =>
      obtain ⟨left, hrun⟩ := exec_enrich_of_error (hbefore.targets.symm ▸ hingest)
      obtain ⟨left', halone⟩ := exec_enrich_of_error hingest
      rw [hrun, halone]
      rfl
    | ok ingested =>
      have hhere : ingest host root (targetsOf before) profileText = .ok ingested := hbefore.targets.symm ▸ hingest
      have hlast : ∀ node ∈ watched loaded id metric,
          (attributionsOf host root loaded profileText).get node = none →
            lastRuntime host root loaded profileTexts node = none := by
        intro node hnode hnone
        refine lastRuntime_eq_none fun earlier hearlier => ?_
        exact halike node hnode profileText (List.mem_append_right _ List.mem_cons_self) earlier
          (List.mem_append_left _ hearlier) hnone
      have hnext := hbefore.step hhere
      rw [exec_enrich_eq_ok_iff.mpr ⟨ingested, hhere, rfl, rfl⟩, exec_enrich_eq_ok_iff.mpr ⟨ingested, hingest, rfl, rfl⟩]
      dsimp only
      rw [readMetric_apply hbefore hingest hlast, ih hnext (by rwa [List.append_assoc])]

theorem length_measureRuns {store : KuzuStore} {values : List ℚ}
    (h : measureRuns host localeCompare root id metric profileTexts store = .ok values) :
    values.length = profileTexts.length := by
  induction profileTexts generalizing store values with
  | nil =>
    cases h
    rfl
  | cons profileText rest ih =>
    rw [measureRuns] at h
    split at h
    · cases h
    · next after _ =>
      cases hvalue : readMetric localeCompare after id metric with
      | error e => rw [hvalue] at h; cases h
      | ok value =>
        rw [hvalue] at h
        dsimp only [bind, Except.bind] at h
        cases hrest : measureRuns host localeCompare root id metric rest after with
        | error e => rw [hrest] at h; cases h
        | ok later =>
          rw [hrest] at h
          cases h
          rw [List.length_cons, List.length_cons, ih hrest]

/-- What a benchmark that succeeds has gone through. -/
theorem measure_eq_ok_iff {lower : String → String} {store : KuzuStore} {options : NodeBenchmarkOptions}
    {profileText : ℕ → String} {report : BenchmarkReport} :
    measure host localeCompare lower root store options profileText = .ok report ↔
      ∃ target, resolveTarget lower store options.target = .ok target ∧
        ∃ values, measureRuns host localeCompare root target.id (options.metric.getD .selfTime)
            ((List.range (runsOf options)).map profileText) store = .ok values ∧
          ∃ stats, BenchmarkStats.summarize values = .ok stats ∧ reportOf host options target stats = report := by
  unfold measure
  rw [mapError_bind_eq_ok_iff]
  refine exists_congr fun target => and_congr_right fun _ => ?_
  rw [mapError_bind_eq_ok_iff]
  refine exists_congr fun values => and_congr_right fun _ => ?_
  rw [mapError_bind_eq_ok_iff]
  exact exists_congr fun stats => and_congr_right fun _ => ⟨Except.ok.inj, congrArg Except.ok⟩

end Runs

/-- A benchmark takes between one and fifty runs, and calls its median a change
only where every run is one. Where the profiles reach the same of the nodes
that make up the metric, each value is what the profile of that run gives on
the graph as it was loaded, and the order of the runs shows in the values
only. -/
theorem measure_honest {host : Host} {localeCompare : Comparator String} {lower : String → String} {root : String}
    {store : KuzuStore} {options : NodeBenchmarkOptions} {profileText : ℕ → String} {report : BenchmarkReport}
    (h : measure host localeCompare lower root store options profileText = .ok report) :
    (report.stats.runs = runsOf options ∧ report.stats.values.length = runsOf options ∧
        1 ≤ runsOf options ∧ runsOf options ≤ 50) ∧
      (∀ delta, report.delta = some delta →
        (BenchmarkStats.direction delta report.stats.spread = .improved →
            ∀ value ∈ report.stats.values, value < delta.baselineMedian) ∧
          (BenchmarkStats.direction delta report.stats.spread = .regressed →
            ∀ value ∈ report.stats.values, delta.baselineMedian < value)) ∧
      (Alike host root store (watched store report.target.id report.metric)
          ((List.range (runsOf options)).map profileText) →
        ((List.range (runsOf options)).map profileText).mapM
            (metricAlone host localeCompare root store report.target.id report.metric) = .ok report.stats.values ∧
          ∀ reordered : ℕ → String,
            ((List.range (runsOf options)).map profileText).Perm ((List.range (runsOf options)).map reordered) →
              ∃ values, report.stats.values.Perm values ∧
                measure host localeCompare lower root store options reordered =
                  .ok { report with stats := { report.stats with values := values } }) := by
  obtain ⟨target, htarget, values, hvalues, stats, hstats, rfl⟩ := measure_eq_ok_iff.mp h
  obtain ⟨hsame, hruns, _⟩ := BenchmarkStats.summarize_eq_ok hstats
  have hlength : values.length = runsOf options := by
    rw [length_measureRuns hvalues, List.length_map, List.length_range]
  have hbounds := clampRuns_bounds (options.runs.getD (.finite DEFAULT_RUNS))
  refine ⟨⟨?_, ?_, hbounds⟩, ?_, ?_⟩
  · exact hruns.trans hlength
  · exact (congrArg List.length hsame).trans hlength
  · intro delta hdelta
    obtain ⟨baselineMedian, _, rfl⟩ := Option.map_eq_some_iff.mp hdelta
    rw [show (reportOf host options target stats).stats = stats from rfl, hsame]
    exact BenchmarkStats.direction_spec hstats baselineMedian
  · intro halike
    have hpass := @measureRuns_alike host localeCompare root target.id (options.metric.getD .selfTime) store store []
      (Descends.refl store) _ halike
    rw [hvalues] at hpass
    refine ⟨?_, fun reordered hperm => ?_⟩
    · exact hpass.symm.trans (congrArg Except.ok hsame.symm)
    · obtain ⟨values', hvalues', hpass'⟩ := mapM_perm hpass.symm hperm
      have hloop := (@measureRuns_alike host localeCompare root target.id (options.metric.getD .selfTime) store store []
        (Descends.refl store) ((List.range (runsOf options)).map reordered) (halike.perm hperm)).trans hpass'
      refine ⟨values', hsame.symm ▸ hvalues', measure_eq_ok_iff.mpr ⟨target, htarget, values', hloop, ?_⟩⟩
      refine ⟨{ stats with values := values' }, ?_, rfl⟩
      rw [BenchmarkStats.summarize_perm hvalues', hstats]
      rfl

/-- A profile of one function, hit by one tick of so many microseconds. -/
def tickJson (micros : ℚ) : Json :=
  .obj [
    ("nodes", .arr [
      .obj [
        ("id", .num 1),
        ("callFrame", .obj [("functionName", .str "parse"), ("url", .str "file:///app/src/main.ts"),
          ("lineNumber", .num 0), ("columnNumber", .num 0)])]]),
    ("samples", .arr [.num 1]),
    ("timeDeltas", .arr [.num micros])]

/-- Three runs, the second of them the slowest; the other way round they give
the same report. -/
theorem measure_honest_threeRuns :
    let host := posixHost [("fast", tickJson 1000), ("slow", tickJson 5000), ("fair", tickJson 2000)]
    let profileText := fun run => ["fast", "slow", "fair"].getD run ""
    let options : NodeBenchmarkOptions := { target := "parse", runs := some (.finite 3), baselineMedian := some 9 }
    ∃ report, measure host Comparator.ofOrder asciiLower "/app" twoFunctionStore options profileText = .ok report ∧
      report.stats.values = [1, 5, 2] ∧ report.stats.median = 2 ∧
      ∃ values, measure host Comparator.ofOrder asciiLower "/app" twoFunctionStore options
          (fun run => ["fair", "slow", "fast"].getD run "") =
        .ok { report with stats := { report.stats with values := values } } := by
  intro host profileText options
  have hrun : (measure host Comparator.ofOrder asciiLower "/app" twoFunctionStore options profileText).toOption.map
      (fun report => (report.target.id, report.metric, report.stats.values, report.stats.median)) =
        some ("src/main.ts#parse", .selfTime, [1, 5, 2], 2) := by decide +kernel
  cases hreport : measure host Comparator.ofOrder asciiLower "/app" twoFunctionStore options profileText with
  | error e => rw [hreport] at hrun; cases hrun
  | ok report =>
    rw [hreport] at hrun
    obtain ⟨hid, hmetric, hvalues, hmedian⟩ : report.target.id = "src/main.ts#parse" ∧ report.metric = .selfTime ∧
        report.stats.values = [1, 5, 2] ∧ report.stats.median = 2 := by
      simpa [Except.toOption] using hrun
    obtain ⟨_, _, horder⟩ := measure_honest hreport
    have halike : Alike host "/app" twoFunctionStore (watched twoFunctionStore report.target.id report.metric)
        ((List.range (runsOf options)).map profileText) := by
      rw [hid, hmetric]
      unfold Alike
      decide +kernel
    obtain ⟨values, _, hreordered⟩ := (horder halike).2 (fun run => ["fair", "slow", "fast"].getD run "")
      (by decide +kernel)
    exact ⟨report, rfl, hvalues, hmedian, values, hreordered⟩

end NodeBenchmark

end codespine.benchmark
