import Codespine.Enrich.CpuProfile

open codespine.schema

namespace codespine.enrich

/-- The frame with the url its file has elsewhere. -/
def CallFrame.relocate (move : String → String) (callFrame : CallFrame) : CallFrame :=
  { callFrame with url := move callFrame.url }

def ProfileNode.relocate (move : String → String) (node : ProfileNode) : ProfileNode :=
  { node with callFrame := node.callFrame.relocate move }

def FrameSample.relocate (move : String → String) (frame : FrameSample) : FrameSample :=
  { frame with url := move frame.url }

def FrameRef.relocate (move : String → String) (frame : FrameRef) : FrameRef := { frame with url := move frame.url }

def RuntimeCallEdge.relocate (move : String → String) (edge : RuntimeCallEdge) : RuntimeCallEdge :=
  { edge with caller := edge.caller.relocate move, callee := edge.callee.relocate move }

/-- The profile of the same run from where its files have other urls. -/
def CpuProfileData.relocate (move : String → String) (profile : CpuProfileData) : CpuProfileData :=
  { profile with nodes := profile.nodes.map (ProfileNode.relocate move) }

namespace CpuProfile

variable (move : String → String) (profile : CpuProfileData)

end CpuProfile

end codespine.enrich
