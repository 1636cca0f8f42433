import Codespine.Commands.WorkloadCommand
import Codespine.Enrich.RuntimeEnricher.Relocated

open codespine.schema codespine.store codespine.enrich codespine.enrich.RuntimeJoin steps

namespace codespine.commands

namespace WorkloadPlan

section Below

variable {start path root : PosixPath} {below rootBelow : List String}

theorem suffix_append (before tail : String) : tail.toList <:+ (before ++ tail).toList := by
  rw [String.toList_append]
  exact List.suffix_append _ _

end Below

section Locate

variable {host : Host} {project root root' : PosixPath} {rootBelow : List String}
  {byFile : OrderedMap String (List RuntimeTargetNode)}

end Locate

end WorkloadPlan

namespace WorkloadCommand

open WorkloadPlan

section Sample

end Sample

end WorkloadCommand

end codespine.commands
