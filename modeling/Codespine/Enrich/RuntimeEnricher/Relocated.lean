import Codespine.Enrich.CpuProfile.Walk
import Codespine.Enrich.RuntimeEnricher.Run
import Codespine.Enrich.RuntimeJoin.Decodable
import Codespine.Enrich.RuntimeJoin.Relocated

open codespine.schema codespine.store codespine.store.KuzuStore

namespace codespine.enrich

namespace RuntimeEnricher

variable {host : Host} {root root' : String} {move : String → String} {profile : CpuProfileData}

end RuntimeEnricher

end codespine.enrich
