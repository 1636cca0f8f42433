import Codespine.Enrich.RuntimeJoin.Resolution
import Codespine.Lib.Loop

open codespine.schema codespine.store

namespace codespine.enrich.RuntimeJoin

variable {host : Host} {nodes : List RuntimeTargetNode} {root : String}

/-- What a frame resolves to, when its url can be decoded. -/
def outcome (host : Host) (nodes : List RuntimeTargetNode) (root : String) (frame : FrameRef) : NodeResolution :=
  ((resolve host (indexByFile nodes) root frame.url frame.functionName frame.line).toOption).getD (.missing .noFile)

/-- The node a frame resolves to, when its url can be decoded. -/
def nodeOf (host : Host) (nodes : List RuntimeTargetNode) (root : String) (frame : FrameRef) :
    Option RuntimeTargetNode :=
  (outcome host nodes root frame).node

/-- The location of a sampled frame. -/
def refOf (frame : FrameSample) : FrameRef :=
  { functionName := frame.functionName, url := frame.url, line := frame.line }

theorem outcome_of_resolve {frame : FrameRef} {resolution : NodeResolution}
    (h : resolve host (indexByFile nodes) root frame.url frame.functionName frame.line = .ok resolution) :
    outcome host nodes root frame = resolution := by
  rw [outcome, h]
  rfl

theorem resolve_of_outcome_found {frame : FrameRef} {node : RuntimeTargetNode} {via : MatchVia}
    (h : outcome host nodes root frame = .found node via) :
    resolve host (indexByFile nodes) root frame.url frame.functionName frame.line = .ok (.found node via) := by
  unfold outcome at h
  cases hresolve : resolve host (indexByFile nodes) root frame.url frame.functionName frame.line with
  | error e => rw [hresolve] at h; cases h
  | ok resolution =>
    rw [hresolve] at h
    exact congrArg Except.ok h

theorem outcome_of_nodeOf {frame : FrameRef} {node : RuntimeTargetNode} (h : nodeOf host nodes root frame = some node) :
    ∃ via, outcome host nodes root frame = .found node via := by
  unfold nodeOf at h
  cases houtcome : outcome host nodes root frame with
  | missing reason => rw [houtcome] at h; cases h
  | found found via =>
    rw [houtcome] at h
    cases h
    exact ⟨via, rfl⟩

theorem mem_of_nodeOf {frame : FrameRef} {node : RuntimeTargetNode} (h : nodeOf host nodes root frame = some node) :
    node ∈ nodes := by
  obtain ⟨via, hvia⟩ := outcome_of_nodeOf h
  exact mem_of_resolve (resolve_of_outcome_found hvia)

section Frames

/-- What `join` makes of the variables of its loop. -/
def JoinState.result (state : JoinState) : RuntimeJoinResult :=
  { attributions := state.attributions
    matchedFrames := state.matchedFrames
    matchedSamples := state.matchedSamples
    matchedSelfMicros := state.matchedSelfMicros
    matchedByName := state.matchedByName
    matchedByRange := state.matchedByRange
    droppedFrames := state.droppedFrames
    droppedSamples := state.droppedSamples
    droppedSelfMicros := state.droppedSelfMicros
    dropped := (Comparator.descending DroppedFrameGroup.selfMicros).sort state.dropped.values }

theorem join_eq (frames : List FrameSample) :
    join host nodes frames root =
      (frames.foldlM (JoinState.step host (indexByFile nodes) root) {}).map JoinState.result := by
  rw [join]
  cases frames.foldlM (JoinState.step host (indexByFile nodes) root) {} <;> rfl

theorem step_of_resolve {frame : FrameSample} {resolution : NodeResolution}
    (h : resolve host (indexByFile nodes) root frame.url frame.functionName frame.line = .ok resolution)
    (state : JoinState) :
    state.step host (indexByFile nodes) root frame = .ok (state.record host frame resolution) := by
  rw [JoinState.step, h]
  rfl

theorem step_eq_ok {state next : JoinState} {frame : FrameSample}
    (h : state.step host (indexByFile nodes) root frame = .ok next) :
    next = state.record host frame (outcome host nodes root (refOf frame)) := by
  unfold JoinState.step at h
  cases hresolve : resolve host (indexByFile nodes) root frame.url frame.functionName frame.line with
  | error e => rw [hresolve] at h; cases h
  | ok resolution =>
    rw [hresolve] at h
    cases h
    rw [@outcome_of_resolve _ _ _ (refOf frame) _ hresolve]

/-- A join that succeeds records the outcomes of its frames, one by one. -/
theorem join_eq_ok {frames : List FrameSample} {result : RuntimeJoinResult} (h : join host nodes frames root = .ok result) :
    result = (frames.foldl (fun state frame => state.record host frame (outcome host nodes root (refOf frame)))
      ({} : JoinState)).result := by
  rw [join_eq] at h
  cases hrun : frames.foldlM (JoinState.step host (indexByFile nodes) root) {} with
  | error e => rw [hrun] at h; cases h
  | ok final =>
    rw [hrun] at h
    cases h
    exact congrArg JoinState.result (loop.eq_foldl_of_foldlM (fun _ _ _ _ hstep => step_eq_ok hstep) hrun)

/-- A frame found on its own is the only one attributed. -/
theorem join_single {frame : FrameSample} {resolution : NodeResolution}
    (h : resolve host (indexByFile nodes) root frame.url frame.functionName frame.line = .ok resolution) :
    join host nodes [frame] root = .ok (({} : JoinState).record host frame resolution).result := by
  rw [join_eq, List.foldlM_cons, step_of_resolve h]
  rfl

end Frames

section CallEdges

/-- What `joinCallEdges` makes of the variables of its loop. -/
def CallJoinState.result (state : CallJoinState) : RuntimeCallJoinResult :=
  { edges := state.aggregated.values
    matchedEdges := state.matchedEdges
    droppedEdges := state.droppedEdges
    droppedSamples := state.droppedSamples }

theorem joinCallEdges_eq (callEdges : List RuntimeCallEdge) :
    joinCallEdges host nodes callEdges root =
      (callEdges.foldlM (CallJoinState.step host (indexByFile nodes) root) {}).map CallJoinState.result := by
  rw [joinCallEdges]
  cases callEdges.foldlM (CallJoinState.step host (indexByFile nodes) root) {} <;> rfl

theorem resolveFrame_eq_ok {frame : FrameRef} {node : Option RuntimeTargetNode}
    (h : resolveFrame host frame (indexByFile nodes) root = .ok node) : node = nodeOf host nodes root frame := by
  unfold resolveFrame at h
  cases hresolve : resolve host (indexByFile nodes) root frame.url frame.functionName frame.line with
  | error e => rw [hresolve] at h; cases h
  | ok resolution =>
    rw [hresolve] at h
    cases h
    rw [nodeOf, outcome_of_resolve hresolve]

theorem callStep_eq_ok {state next : CallJoinState} {edge : RuntimeCallEdge}
    (h : state.step host (indexByFile nodes) root edge = .ok next) :
    next = state.record edge.samples (nodeOf host nodes root edge.caller) (nodeOf host nodes root edge.callee) := by
  unfold CallJoinState.step at h
  cases hcaller : resolveFrame host edge.caller (indexByFile nodes) root with
  | error e => rw [hcaller] at h; cases h
  | ok caller =>
    cases hcallee : resolveFrame host edge.callee (indexByFile nodes) root with
    | error e => rw [hcaller, hcallee] at h; cases h
    | ok callee =>
      rw [hcaller, hcallee] at h
      cases h
      rw [resolveFrame_eq_ok hcaller, resolveFrame_eq_ok hcallee]

/-- A join that succeeds records its call edges, one by one. -/
theorem joinCallEdges_eq_ok {callEdges : List RuntimeCallEdge} {result : RuntimeCallJoinResult}
    (h : joinCallEdges host nodes callEdges root = .ok result) :
    result = (callEdges.foldl (fun state edge => state.record edge.samples (nodeOf host nodes root edge.caller)
      (nodeOf host nodes root edge.callee)) ({} : CallJoinState)).result := by
  rw [joinCallEdges_eq] at h
  cases hrun : callEdges.foldlM (CallJoinState.step host (indexByFile nodes) root) {} with
  | error e => rw [hrun] at h; cases h
  | ok final =>
    rw [hrun] at h
    cases h
    exact congrArg CallJoinState.result (loop.eq_foldl_of_foldlM (fun _ _ _ _ hstep => callStep_eq_ok hstep) hrun)

end CallEdges

end codespine.enrich.RuntimeJoin
