import Codespine.Query.CostRanking.Linear
import Codespine.Query.CostRanking.Share
import Codespine.Query.StrongCycles

open codespine.schema codespine.store attribution digraph

namespace codespine.query.GraphQuery

section Store

variable {store : KuzuStore} {metric : CostMetric}

end Store

end codespine.query.GraphQuery
