import Codespine.Enrich.RuntimeEnricher
import Codespine.Query.CostAttribution

open codespine.schema codespine.store codespine.enrich codespine.query

namespace codespine.benchmark

/-- The runtime metric a benchmark tracks. -/
inductive BenchmarkMetric where
  | selfTime | inclusiveTime | samples
deriving DecidableEq, Repr

inductive BenchmarkError where
  | profiling (error : HostError)
  | targetGone (id : String)

namespace NodeBenchmark

/-- The target's current metric, by the cost model. -/
def readMetric (localeCompare : Comparator String) (store : KuzuStore) (id : String) (metric : BenchmarkMetric) :
    Except BenchmarkError ℚ :=
  let costMetric : CostMetric := if metric = .samples then .samples else .selfTime
  match (GraphQuery.costAttribution localeCompare store id { metric := some costMetric }).node with
  | none => .error (.targetGone id)
  | some node => .ok (if metric = .inclusiveTime then node.inclusiveCost else node.selfCost)

/-- The loop of `measure`: each round enriches the graph with the profile of
that round, then reads the target's metric. -/
def measureRuns (host : Host) (localeCompare : Comparator String) (root id : String) (metric : BenchmarkMetric) :
    List String → KuzuStore → Except BenchmarkError (List ℚ)
  | [], _ => .ok []
  | profileText :: rest, store =>
    match (RuntimeEnricher.enrich host profileText root).exec store with
    | (.error e, _) => .error (.profiling e)
    | (.ok _, enriched) => do
      let value ← readMetric localeCompare enriched id metric
      let values ← measureRuns host localeCompare root id metric rest enriched
      return value :: values

end NodeBenchmark

end codespine.benchmark
