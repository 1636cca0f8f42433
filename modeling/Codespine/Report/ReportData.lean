import Codespine.Commands.ClusterCommand
import Codespine.Lib.Comparator

open codespine.store
open codespine.commands.ClusterCommand (communityIn labelIn)

namespace codespine.report

/-- A detected community as a report shows it. -/
structure ReportCommunity where
  label : String
  size : ℕ

namespace ReportData

/-- How many nodes carry each community. -/
def communitySizes (nodes : List StoredNode) : OrderedMap ℚ ℕ :=
  OrderedMap.tally (nodes.filterMap fun node => communityIn node.metadata)

/-- The first label met of each community. -/
def communityLabels (nodes : List StoredNode) : OrderedMap ℚ String :=
  nodes.foldl (fun labels node =>
    match communityIn node.metadata, labelIn node.metadata with
    | some index, some label => if index ∈ labels.keys then labels else labels.set index label
    | _, _ => labels) ∅

/-- The communities, largest first. -/
def communitiesOf (host : Host) (localeCompare : Comparator String) (nodes : List StoredNode) : List ReportCommunity :=
  let labels := communityLabels nodes
  ((Comparator.descending fun community : ReportCommunity => (community.size : ℚ)).thenBy
    (localeCompare.on ReportCommunity.label)).sort ((communitySizes nodes).entries.map fun entry =>
      { label := labels.getD entry.1 ("community " ++ host.showNumber entry.1), size := entry.2 })

/-- A count is the number of nodes that carry that community. -/
theorem getD_communitySizes (nodes : List StoredNode) (community : ℚ) :
    (communitySizes nodes).getD community 0 =
      nodes.countP fun node => communityIn node.metadata = some community := by
  unfold communitySizes
  rw [OrderedMap.getD_tally, List.count_eq_countP, List.countP_filterMap]
  refine List.countP_congr fun node _ => ?_
  cases communityIn node.metadata <;> simp

/-- The report shows each count as the size of a community. -/
theorem sizes_communitiesOf (host : Host) (localeCompare : Comparator String) (nodes : List StoredNode) :
    ((communitiesOf host localeCompare nodes).map ReportCommunity.size).Perm (communitySizes nodes).values := by
  refine ((Comparator.sort_perm _ _).map ReportCommunity.size).trans (List.Perm.of_eq ?_)
  rw [List.map_map]
  rfl

end ReportData

end codespine.report
