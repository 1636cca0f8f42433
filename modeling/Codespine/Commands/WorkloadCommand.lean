import Codespine.Commands.WorkloadPlan
import Codespine.Enrich.RuntimeEnricher.Run

open codespine.schema codespine.store codespine.enrich

namespace codespine.commands

namespace WorkloadCommand

variable (host : Host) (runner : Runner)

end WorkloadCommand

end codespine.commands
