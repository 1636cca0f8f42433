import Codespine.Lib.Escape
import Codespine.Report.ReportData.Gather

open codespine.schema codespine.store

namespace codespine.report

inductive Align where
  | left | right
deriving DecidableEq, Repr

/-- What is given to `GraphReport.table`: as many cells in every row as there
are headers. -/
structure Table where
  headers : List String
  rows : List (List String)
  align : List Align
  row_length : ∀ row ∈ rows, row.length = headers.length

namespace GraphReport

variable (host : ReportHost)

/-- The GitHub permalink of a symbol, when the graph recorded its provenance. -/
def permalink (provenance : Option SourceManifest) (symbol : ReportSymbol) : Option String :=
  provenance.map fun provenance =>
    provenance.baseUrl ++ "/blob/" ++ provenance.commit ++ "/" ++ (provenance.rootPrefix ++ symbol.filePath) ++ "#L" ++
      host.showNumber symbol.startLine

def codeSpan (text : String) : String := "`" ++ text ++ "`"

def location (provenance : Option SourceManifest) (symbol : ReportSymbol) : String :=
  let label := codeSpan (symbol.filePath ++ ":" ++ host.showNumber symbol.startLine)
  match permalink host provenance symbol with
  | none => label
  | some link => "[" ++ label ++ "](" ++ link ++ ")"

def pct1 (value : ℚ) : String := host.toFixed (value * 100) 1 ++ "%"

/-- `value.replace(/\|/g, '\\|')`. -/
def cell (value : String) : String := String.ofList (escaping.escape '\\' '|' value.toList)

def line (cells : List String) : String := "| " ++ " | ".intercalate cells ++ " |"

def head (table : Table) : String := line table.headers

def separator (table : Table) : String :=
  line (table.headers.mapIdx fun index _ => if table.align[index]? = some .right then "---:" else "---")

def body (table : Table) : List String := table.rows.map fun row => line (row.map cell)

/-- `GraphReport.table`. -/
def tableLines (table : Table) : List String := head table :: separator table :: body table

/-- The table of a ranking. -/
def rankTable (items : List RankedSymbol) (scoreHeader : String) (provenance : Option SourceManifest) : Table where
  headers := ["Symbol", scoreHeader, "Location"]
  rows := items.map fun item => [codeSpan item.name, host.showNumber item.score, location host provenance item.toReportSymbol]
  align := [.left, .right, .left]
  row_length := by simp

def rankSection (items : List RankedSymbol) (scoreHeader empty : String) (provenance : Option SourceManifest) : List String :=
  if items = [] then ["_" ++ empty ++ "_"] else tableLines (rankTable host items scoreHeader provenance)

/-- The table of the communities, whose labels are escaped before the table
escapes its cells. -/
def communityTable (data : GraphReportData) : Table where
  headers := ["Community", "Size"]
  rows := data.communities.map fun community => [cell community.label, host.showNumber community.size]
  align := [.left, .right]
  row_length := by simp

def communitySection (data : GraphReportData) : List String :=
  if data.communities.isEmpty then ["_No communities assigned — run `cluster` to populate._"] else tableLines (communityTable host data)

def hotspotTable (data : GraphReportData) : Table where
  headers := ["Symbol", "Self-time (ms)", "Location"]
  rows := data.hotspots.map fun hotspot =>
    [codeSpan hotspot.name, host.toFixed hotspot.score 1, location host data.provenance hotspot.toReportSymbol]
  align := [.left, .right, .left]
  row_length := by simp

def costTable (data : GraphReportData) : Table where
  headers := ["Symbol", "Inclusive (ms)", "Share", "Location"]
  rows := data.cost.map fun node =>
    [codeSpan node.name ++ if node.cyclic then " ↺" else "", host.toFixed node.inclusiveCost 1, pct1 host node.shareOfTotal,
      location host data.provenance node.toReportSymbol]
  align := [.left, .right, .right, .left]
  row_length := by simp

def runtimeSection (data : GraphReportData) : List String :=
  if data.enriched = false then ["_Run `enrich` to populate the runtime sections (hotspots, cost, structure-vs-runtime)._"] else
  ["**Hotspots** — exclusive self-time", ""] ++ tableLines (hotspotTable host data) ++ [""] ++
    ["**Cost** — inclusive, share of total runtime", ""] ++ tableLines (costTable host data)

def deadExportTable (data : GraphReportData) : Table where
  headers := ["Symbol", "Kind", "Location"]
  rows := data.deadExports.map fun symbol => [codeSpan symbol.name, symbol.kind.text, location host data.provenance symbol]
  align := []
  row_length := by simp

def deadExportSection (data : GraphReportData) : List String :=
  if data.deadExports = [] then ["_No dead exports._"] else
  ["Exported but never referenced:", ""] ++ tableLines (deadExportTable host data)

def NO_CALL_EDGES : String := "No call edges — run `extract --semantic`."

/-- The sections of a report that have tables of symbols or communities. -/
def sections (data : GraphReportData) : List (List String) :=
  [rankSection host data.hubsByCallers "Callers" NO_CALL_EDGES data.provenance,
    rankSection host data.hubsByBlastRadius "Impacted" NO_CALL_EDGES data.provenance,
    communitySection host data, runtimeSection host data, deadExportSection host data]

/-- The tables in them. -/
def tables (data : GraphReportData) : List Table :=
  (if data.hubsByCallers = [] then [] else [rankTable host data.hubsByCallers "Callers" data.provenance]) ++
  (if data.hubsByBlastRadius = [] then [] else [rankTable host data.hubsByBlastRadius "Impacted" data.provenance]) ++
  (if data.communities.isEmpty then [] else [communityTable host data]) ++
  (if data.enriched = false then [] else [hotspotTable host data, costTable host data]) ++
  (if data.deadExports = [] then [] else [deadExportTable host data])

end GraphReport

end codespine.report
