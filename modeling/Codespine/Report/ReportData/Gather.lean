import Codespine.Query.CostRanking
import Codespine.Query.DeadExports
import Codespine.Query.Hotspots
import Codespine.Query.StrongCycles
import Codespine.Report.ReportData
import Codespine.Store.Jsonl

open codespine.schema codespine.store codespine.query codespine.cluster

namespace codespine.report

/-- A graph symbol reduced to what every section shows. -/
structure ReportSymbol where
  name : String
  kind : NodeKind
  filePath : String
  startLine : ℤ
deriving DecidableEq

/-- A symbol with the score it earned in a ranking. -/
structure RankedSymbol extends ReportSymbol where
  score : ℚ
deriving DecidableEq

/-- A symbol with its propagated cost. -/
structure ReportCostNode extends ReportSymbol where
  selfCost : ℚ
  inclusiveCost : ℚ
  shareOfTotal : ℚ
  cyclic : Bool
  cycleSize : ℕ

/-- A node or edge kind and how many carry it. -/
structure KindCount where
  kind : String
  count : ℕ

structure ReportCycle where
  size : ℕ
  members : List ReportSymbol

structure ReportBoundary where
  endpoints : List ReportSymbol
  configFlags : List ReportSymbol
  externalApis : List ReportSymbol

/-- The static call graph set against the runtime profile. -/
structure StructureVsRuntime where
  orchestrators : List ReportSymbol
  hiddenHotspots : List ReportSymbol
  alignedCore : List ReportSymbol

inductive FindingTone where
  | risk | opportunity | info
deriving DecidableEq, Repr

/-- One takeaway, with the symbols it is about. -/
structure KeyFinding where
  title : String
  detail : String
  tone : FindingTone
  symbols : List ReportSymbol

structure ReportTotals where
  symbols : ℕ
  files : ℕ
  relationships : ℕ
  communities : ℕ
  deadExports : ℕ
  cycles : ℕ

/-- Everything that a report shows. -/
structure GraphReportData where
  generatedAt : String
  project : String
  outputFolder : String
  provenance : Option SourceManifest
  semantic : Bool
  enriched : Bool
  coverage : Option ℚ
  totalSelf : ℚ
  limit : ℕ
  totals : ReportTotals
  verdict : String
  nodeKinds : List KindCount
  edgeKinds : List KindCount
  hubsByCallers : List RankedSymbol
  hubsByBlastRadius : List RankedSymbol
  communityQuality : Option ℚ
  communities : List ReportCommunity
  hotspots : List RankedSymbol
  cost : List ReportCostNode
  structureVsRuntime : StructureVsRuntime
  cycles : List ReportCycle
  boundary : ReportBoundary
  deadExports : List ReportSymbol
  keyFindings : List KeyFinding

structure GatherOptions where
  generatedAt : String
  project : String
  outputFolder : String
  limit : ℕ

/-- What a report needs of the runtime besides: `new URL(text).pathname`, where
that does not throw, and `value.toFixed(digits)`. -/
structure ReportHost extends Host where
  urlPathname : String → Option String
  toFixed : ℚ → ℕ → String

/-- A host whose urls have no path. -/
def plainHost : ReportHost where
  toHost := posixHost []
  urlPathname _ := none
  toFixed value _ := toString value.num

/-- How many callers a symbol may have and still count as hidden. -/
def HIDDEN_HOTSPOT_MAX_CALLERS : ℚ := 1

/-- The limit that whole rankings are read with. -/
def UNBOUNDED : JsNumber := .finite 100000

/-- How many symbols a finding names. -/
def KEY_FINDING_SYMBOLS : ℕ := 3

/-- The share of self time that counts as concentrated. -/
def RUNTIME_CONCENTRATION_THRESHOLD : ℚ := 1 / 2

namespace ReportData

/-- `Math.round`. -/
def round (value : ℚ) : ℤ := ⌊value + 1 / 2⌋

def countBy (localeCompare : Comparator String) (values : List String) : List KindCount :=
  ((Comparator.descending fun entry : KindCount => (entry.count : ℚ)).thenBy (localeCompare.on KindCount.kind)).sort
    ((OrderedMap.tally values).entries.map fun entry => { kind := entry.1, count := entry.2 })

def edgeKindCounts (localeCompare : Comparator String) (store : KuzuStore) : List KindCount :=
  countBy localeCompare (store.edges.keys.map fun key => key.kind.text)

def nodeKindCounts (localeCompare : Comparator String) (nodes : List StoredNode) : List KindCount :=
  countBy localeCompare (nodes.map fun node => node.kind.text)

section Projections

def toSymbol (ref : SymbolRef) : ReportSymbol where
  name := ref.name
  kind := ref.kind
  filePath := ref.filePath
  startLine := ref.startLine

def toRanked (ref : HotspotRef) : RankedSymbol where
  name := ref.name
  kind := ref.kind
  filePath := ref.filePath
  startLine := ref.startLine
  score := ref.score

def toCostNode (ref : CostRef) : ReportCostNode where
  name := ref.name
  kind := ref.kind
  filePath := ref.filePath
  startLine := ref.startLine
  selfCost := ref.selfCost
  inclusiveCost := ref.inclusiveCost
  shareOfTotal := ref.shareOfTotal
  cyclic := ref.cyclic
  cycleSize := ref.cycleSize

/-- What symbols are joined by: the file path and the name. -/
def symbolKey (symbol : ReportSymbol) : String := symbol.filePath ++ "#" ++ symbol.name

end Projections

def boundaryOf (nodes : List StoredNode) : ReportBoundary :=
  let ofKind := fun kind => (nodes.filter fun node => node.kind = kind).map fun node => toSymbol (GraphQuery.symbolOf node)
  { endpoints := ofKind .Endpoint, configFlags := ofKind .ConfigFlag, externalApis := ofKind .ExternalAPI }

/-- The hot nodes with few callers, as far as `fanIn` knows. -/
def hiddenHotspotsOf (hottest : List HotspotRef) (fanIn : OrderedMap String ℚ) : List HotspotRef :=
  (hottest.filter fun hotspot => fanIn.getD hotspot.id 0 ≤ HIDDEN_HOTSPOT_MAX_CALLERS).take 5

/-- The hot nodes with more callers. -/
def alignedCoreOf (hottest : List HotspotRef) (fanIn : OrderedMap String ℚ) : List HotspotRef :=
  (hottest.filter fun hotspot => HIDDEN_HOTSPOT_MAX_CALLERS < fanIn.getD hotspot.id 0).take 5

/-- Splits the measured graph in three. -/
def synthesize (cost : List CostRef) (hottest : List HotspotRef) (fanIn : OrderedMap String ℚ) : StructureVsRuntime where
  orchestrators := ((cost.filter fun node => node.selfCost = 0 ∧ 0 < node.inclusiveCost).take 5).map fun node =>
    toSymbol node.toSymbolRef
  hiddenHotspots := (hiddenHotspotsOf hottest fanIn).map fun hotspot => toSymbol hotspot.toSymbolRef
  alignedCore := (alignedCoreOf hottest fanIn).map fun hotspot => toSymbol hotspot.toSymbolRef

/-- A stored value that fails validation counts as absent. -/
def readProvenance (store : KuzuStore) : Option SourceManifest :=
  (store.readGraphMeta SOURCE_MANIFEST_KEY).bind fun raw => SourceManifestSchema (.obj raw.entries)

def readCommunityQuality (store : KuzuStore) : Option ℚ :=
  (store.readGraphMeta CLUSTERING_MANIFEST_KEY).bind fun raw =>
    match raw.get "quality" with
    | some (.num quality) => some quality
    | _ => none

/-- `replace(/^\/+|\/+$/g, '')`. -/
def trimSlashes (path : String) : String :=
  String.ofList ((path.toList.dropWhile (· = '/')).reverse.dropWhile (· = '/')).reverse

/-- `owner/repo` from the recorded base url, or the fallback. -/
def projectName (host : ReportHost) (provenance : Option SourceManifest) (fallback : String) : String :=
  match provenance.bind fun source => host.urlPathname source.baseUrl with
  | some pathname => if trimSlashes pathname = "" then fallback else trimSlashes pathname
  | none => fallback

/-- The share of inclusive cost that the verdict tells of the hottest function:
that of the first cost node of its name and file. -/
def hottestShare (data : GraphReportData) : Option ℚ :=
  data.hotspots.head?.bind fun hottest =>
    (data.cost.find? fun node => node.name = hottest.name ∧ node.filePath = hottest.filePath).map
      ReportCostNode.shareOfTotal

def verdictOf (host : ReportHost) (data : GraphReportData) : String :=
  let shape := if data.semantic then if data.enriched then "semantic, enriched" else "semantic" else "structural"
  let cycles := if data.totals.cycles = 0 then "acyclic" else toString data.totals.cycles ++ " call cycle(s)"
  let opening := toString data.totals.symbols ++ " symbols across " ++ toString data.totals.files ++ " files — " ++
    shape ++ ", " ++ cycles ++ "."
  let hottest :=
    match data.hotspots.head? with
    | some hottest =>
      if data.enriched then
        let share :=
          match hottestShare data with
          | some share => " (" ++ host.toFixed (share * 100) 1 ++ "% of inclusive cost)"
          | none => ""
        ["`" ++ hottest.name ++ "` is the hottest function" ++ share ++ "."]
      else []
    | none => []
  let dead :=
    if 0 < data.totals.deadExports then [toString data.totals.deadExports ++ " exported symbol(s) appear dead."] else []
  " ".intercalate ([opening] ++ hottest ++ dead)

/-- The most depended-upon symbols that are among the hottest, else the single
largest blast radius. -/
def changeRiskFinding (host : ReportHost) (data : GraphReportData) : Option KeyFinding :=
  match data.hubsByBlastRadius with
  | [] => none
  | top :: _ =>
    let hotKeys := data.hotspots.map fun hotspot => symbolKey hotspot.toReportSymbol
    let overlap := data.hubsByBlastRadius.filter fun hub => symbolKey hub.toReportSymbol ∈ hotKeys
    if data.enriched ∧ 0 < data.hotspots.length ∧ 0 < overlap.length then
      some {
        title := "Change with the most care"
        detail := "high blast radius and among the hottest functions — the costliest places to introduce a regression."
        tone := .risk
        symbols := (overlap.take KEY_FINDING_SYMBOLS).map RankedSymbol.toReportSymbol }
    else
      let share := if 0 < data.totals.symbols then round (top.score / data.totals.symbols * 100) else 0
      some {
        title := "Highest blast radius"
        detail := "the largest reaches " ++ host.showNumber top.score ++ " symbol(s), " ++ toString share ++
          "% of the codebase — change these carefully."
        tone := .risk
        symbols := (data.hubsByBlastRadius.take KEY_FINDING_SYMBOLS).map RankedSymbol.toReportSymbol }

/-- Adds up scores until they are half of the total: the sum, and how many it
took. -/
def accumulateHottest (totalSelf : ℚ) : List RankedSymbol → ℚ → ℕ → ℚ × ℕ
  | [], cumulative, count => (cumulative, count)
  | hotspot :: rest, cumulative, count =>
    if RUNTIME_CONCENTRATION_THRESHOLD ≤ (cumulative + hotspot.score) / totalSelf then
      (cumulative + hotspot.score, count + 1)
    else accumulateHottest totalSelf rest (cumulative + hotspot.score) (count + 1)

/-- What the finding says of so many functions and their share. -/
def concentrationDetail (count : ℕ) (share : ℤ) : String :=
  "the " ++ toString count ++ " hottest function(s) account for " ++ toString share ++
    "% of measured self-time — start optimisation here."

/-- The fewest hottest functions that take half of the self time. -/
def runtimeConcentrationFinding (data : GraphReportData) : Option KeyFinding :=
  if data.enriched = false ∨ data.hotspots.length = 0 ∨ data.totalSelf ≤ 0 then none
  else
    let (cumulative, count) := accumulateHottest data.totalSelf data.hotspots 0 0
    if cumulative / data.totalSelf < RUNTIME_CONCENTRATION_THRESHOLD then none
    else
      some {
        title := "Runtime is concentrated"
        detail := concentrationDetail count (round (cumulative / data.totalSelf * 100))
        tone := .opportunity
        symbols := (data.hotspots.take (min count KEY_FINDING_SYMBOLS)).map RankedSymbol.toReportSymbol }

/-- Dead exports as a cleanup task. -/
def cleanupFinding (data : GraphReportData) : Option KeyFinding :=
  if data.deadExports.length = 0 then none
  else
    let files := (data.deadExports.map ReportSymbol.filePath).dedup.length
    some {
      title := "Dead code is safe to remove"
      detail := toString data.deadExports.length ++ " exported symbol(s) across " ++ toString files ++
        " file(s) are never referenced — confirm, then delete."
      tone := .opportunity
      symbols := data.deadExports.take KEY_FINDING_SYMBOLS }

def findingsOf (host : ReportHost) (data : GraphReportData) : List KeyFinding :=
  [changeRiskFinding host data, runtimeConcentrationFinding data, cleanupFinding data].filterMap id

section Reads

variable (localeCompare : Comparator String) (store : KuzuStore)

/-- A whole ranking of the nodes, as far as `hotspots` lets one be read. -/
def rankingBy (metric : HotspotMetric) : HotspotReport :=
  GraphQuery.hotspots localeCompare store { metric := some metric, limit := some UNBOUNDED }

/-- The whole cost ranking. -/
def costReport : CostReport := GraphQuery.costRanking localeCompare store { limit := some UNBOUNDED }

/-- The measured hotspots, none without a profile. -/
def hottest : List HotspotRef :=
  if (costReport localeCompare store).enriched ∧ (rankingBy localeCompare store .selfTime).fellBack = false then
    (rankingBy localeCompare store .selfTime).hotspots
  else []

/-- The callers of each node, by id. -/
def fanIn : OrderedMap String ℚ :=
  OrderedMap.ofList ((rankingBy localeCompare store .callers).hotspots.map fun hotspot => (hotspot.id, hotspot.score))

end Reads

/-- Everything but the verdict and the findings, which are made from it. -/
def gatherSections (host : ReportHost) (localeCompare : Comparator String) (store : KuzuStore) (options : GatherOptions) :
    GraphReportData :=
  let nodes := store.readNodes
  let edgeKinds := edgeKindCounts localeCompare store
  let provenance := readProvenance store
  let cost := costReport localeCompare store
  let deadExports := GraphQuery.deadExports store
  let cycles := GraphQuery.strongCycles store
  let communities := communitiesOf host.toHost localeCompare nodes
  let limit := options.limit
  { generatedAt := options.generatedAt
    project := projectName host provenance options.project
    outputFolder := options.outputFolder
    provenance
    semantic := edgeKinds.any fun entry => entry.kind = "CALLS" ∧ 0 < entry.count
    enriched := cost.enriched
    coverage := cost.coverage
    totalSelf := cost.totalSelf
    limit
    totals :=
      { symbols := nodes.length
        files := (nodes.map StoredNode.filePath).dedup.length
        relationships := (edgeKinds.map KindCount.count).sum
        communities := communities.length
        deadExports := deadExports.length
        cycles := cycles.length }
    verdict := ""
    nodeKinds := nodeKindCounts localeCompare nodes
    edgeKinds
    hubsByCallers := ((rankingBy localeCompare store .callers).hotspots.take limit).map toRanked
    hubsByBlastRadius := ((rankingBy localeCompare store .blastRadius).hotspots.take limit).map toRanked
    communityQuality := readCommunityQuality store
    communities := communities.take limit
    hotspots := ((hottest localeCompare store).take limit).map toRanked
    cost := (cost.nodes.take limit).map toCostNode
    structureVsRuntime := synthesize cost.nodes (hottest localeCompare store) (fanIn localeCompare store)
    cycles := (cycles.take limit).map fun members => { size := members.length, members := members.map toSymbol }
    boundary := boundaryOf nodes
    deadExports := deadExports.map toSymbol
    keyFindings := [] }

/-- Gathers what a report shows of a loaded graph. -/
def gather (host : ReportHost) (localeCompare : Comparator String) (store : KuzuStore) (options : GatherOptions) :
    GraphReportData :=
  let data := gatherSections host localeCompare store options
  let data := { data with verdict := verdictOf host data }
  { data with keyFindings := findingsOf host data }

end ReportData

end codespine.report
