import Codespine.Enrich.CpuProfile.Relocated
import Codespine.Enrich.RuntimeJoin.Runs

open codespine.schema codespine.store

namespace codespine.enrich

namespace RuntimeJoin

variable {host : Host} {nodes : List RuntimeTargetNode} {root root' : String} {move : String → String}

end RuntimeJoin

end codespine.enrich
