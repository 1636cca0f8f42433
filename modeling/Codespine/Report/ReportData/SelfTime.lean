import Codespine.Query.Hotspots.Stable
import Codespine.Report.ReportData.Gather

open codespine.schema codespine.store codespine.query codespine.query.GraphQuery

namespace codespine.report.ReportData

/-- The options that the report reads the self-time ranking with. -/
def selfTimeOptions : HotspotOptions := { metric := some .selfTime, limit := some UNBOUNDED }

/-- The nodes that took any time, the hottest first. -/
def measured (localeCompare : Comparator String) (store : KuzuStore) : List (StoredNode × ℚ) :=
  (hotspotOrder localeCompare).sort (scored store.readNodes (readCallEdges store) selfTimeOptions)

variable {store : KuzuStore}

theorem rankedMetric_selfTime (henriched : (store.readNodes.any fun node => hasRuntime node.metadata) = true) :
    rankedMetric store.readNodes selfTimeOptions = .selfTime := by
  rw [rankedMetric, henriched]
  rfl

/-- A node of a measured graph scores its own time. -/
theorem scored_selfTime (henriched : (store.readNodes.any fun node => hasRuntime node.metadata) = true) :
    scored store.readNodes (readCallEdges store) selfTimeOptions =
      (store.readNodes.map fun node => (node, runtimeValue node.metadata "selfMs")).filter fun entry => 0 < entry.2 := by
  rw [scored, rankedMetric_selfTime henriched]
  refine congrArg (List.filter _) (List.map_congr_left fun node hnode => congrArg (Prod.mk node) ?_)
  exact getD_ofNodes store.readNodes_nodup (fun node => runtimeValue node.metadata "selfMs") hnode

/-- The report reads the first thousand of them. -/
theorem hottest_eq (localeCompare : Comparator String)
    (henriched : (store.readNodes.any fun node => hasRuntime node.metadata) = true) :
    hottest localeCompare store = ((measured localeCompare store).take 1000).map (toHotspot .selfTime) := by
  have hclamp : clampLimit (some UNBOUNDED) = 1000 := by decide +kernel
  have hfell : (rankingBy localeCompare store .selfTime).fellBack = false := by
    change (isRuntimeMetric .selfTime && !_) = false
    rw [henriched]
    rfl
  rw [← hclamp, ← rankedMetric_selfTime henriched]
  exact if_pos ⟨henriched, hfell⟩

end codespine.report.ReportData
