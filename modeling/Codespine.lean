import Codespine.Query.CostModel.Frontier
import Codespine.Query.CostRanking
import Codespine.Lib.Attribution.Conservation
import Codespine.Lib.Attribution.Multiplicity
import Codespine.Lib.Comparator
import Codespine.Query.CostRanking.Share
import Codespine.Enrich.RuntimeJoin
import Codespine.Enrich.CpuProfile.Totals
import Codespine.Enrich.RuntimeJoin.Conservation
import Codespine.Enrich.RuntimeEnricher
import Codespine.Store.KuzuStore.Writes
import Codespine.Enrich.RuntimeEnricher.Run
import Codespine.Enrich.RuntimeEnricher.Atomicity
import Codespine.Enrich.RuntimeEnricher.Layer
import Codespine.Benchmark.NodeBenchmark
import Codespine.Enrich.RuntimeEnricher.Latest
import Codespine.Lib.Walk
import Codespine.Query.Hotspots.Impact
import Codespine.Query.BlastRadius.Impact
import Codespine.Query.DeadExports
import Codespine.Query.CampaignPlanner.Readiness
import Codespine.Query.CampaignPlanner.Worklist
import Codespine.Query.CampaignPlanner.Truncation
import Codespine.Extract.StructuralExtractor
import Codespine.Extract.GraphBuilder
import Codespine.Extract.GraphBuilder.Merge
import Codespine.Extract.StructuralExtractor.Emitted
import Codespine.Extract.SemanticExtractor.Uses
import Codespine.Extract.GraphBuilder.Relationships
import Codespine.Extract.GraphBuilder.Nodes
import Codespine.Extract.SemanticExtractor.Dangling
import Codespine.Extract.ScopeResolver.Dangling
import Codespine.Query.DeadExports.Soundness
import Codespine.Cluster.CommunityLabeler.Injective
import Codespine.Cluster.CommunityLabeler.Membership
import Codespine.Commands.ClusterCommand
import Codespine.Commands.ClusterCommand.Agreement
import Codespine.Store.Jsonl.RoundTrip
import Codespine.Commands.LoadCommand.Reload
import Codespine.Commands.History.Communities
import Codespine.Commands.History.Carriers
import Codespine.Query.StrongCycles
import Codespine.Query.CostAttribution.Split
import Codespine.Enrich.RuntimeJoin.Located
import Codespine.Enrich.RuntimeJoin.Executable
import Codespine.Enrich.RuntimeJoin.RowOrder
import Codespine.Enrich.RuntimeEnricher.Idempotence
import Codespine.Enrich.CpuProfile.Subtree
import Codespine.Enrich.RuntimeJoin.Recursion
import Codespine.Enrich.RuntimeEnricher.EdgeCount
import Codespine.Store.KuzuStore.Counts
import Codespine.Extract.GraphBuilder.Counts
import Codespine.Query.Hotspots.Stable
import Codespine.Cluster.CommunityDetector.Projection
import Codespine.Benchmark.NodeBenchmark.Target
import Codespine.Commands.ClusterCommand.Interrupted
import Codespine.Report.ReportData.FanIn
import Codespine.Report.ReportData.Join
import Codespine.Report.ReportData.Concentration
import Codespine.Query.Components.Trace
import Codespine.Enrich.RuntimeJoin.Innermost
import Codespine.Benchmark.BenchmarkStats
import Codespine.Webview.Legends
import Codespine.Webview.Selection
import Codespine.Extract.GitSource
import Codespine.Commands.WorkloadPlan
import Codespine.Report.GraphReport.Tables
import Codespine.Commands.History.Interleaving
import Codespine.Commands.History.Coverage
import Codespine.Commands.History.Facts
import Codespine.Commands.WebviewCommand.View
import Codespine.Commands.WebviewCommand.Labels
import Codespine.Webview.Page.Shows
import Codespine.Commands.ExtractCommand.CallSites
import Codespine.Query.Neighbors.Agreement
import Codespine.Query.CostRanking.Responsible
import Codespine.Benchmark.NodeBenchmark.Measure
import Codespine.Commands.ClusterCommand.Naming
import Codespine.Commands.WorkloadCommand
import Codespine.Commands.WorkloadCommand.Relocation
