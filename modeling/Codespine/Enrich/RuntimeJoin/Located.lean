import Codespine.Enrich.RuntimeJoin.Runs

open codespine.schema codespine.store

namespace codespine.enrich.RuntimeJoin

variable {host : Host} {nodes : List RuntimeTargetNode} {root url absolute path : String}

/-- The url decodes to an absolute path, which relative to the root is the
given one. -/
structure LiesAt (host : Host) (root url absolute path : String) : Prop where
  decodes : urlToAbsolute host url = .ok (some absolute)
  path_eq : toPosix host (host.relative root absolute) = path

/-- `join` drops the frames of a url for want of a file, wherever in the
profile they stand. -/
def DropsFrames (host : Host) (nodes : List RuntimeTargetNode) (root url : String) : Prop :=
  ∀ (before after : List FrameSample) (frame : FrameSample), frame.url = url →
    join host nodes (before ++ frame :: after) root = Except.map JoinState.result do
      let state ← before.foldlM (JoinState.step host (indexByFile nodes) root) {}
      after.foldlM (JoinState.step host (indexByFile nodes) root) (state.record host frame (.missing .noFile))

/-- `joinCallEdges` drops the call edges that start or end at a url, wherever
in the call tree they stand. -/
def DropsCallEdges (host : Host) (nodes : List RuntimeTargetNode) (root url : String) : Prop :=
  ∀ (before after : List RuntimeCallEdge) (edge : RuntimeCallEdge) (result : RuntimeCallJoinResult),
    edge.caller.url = url ∨ edge.callee.url = url →
    joinCallEdges host nodes (before ++ edge :: after) root = .ok result →
    (Except.map CallJoinState.result do
      let state ← before.foldlM (CallJoinState.step host (indexByFile nodes) root) {}
      after.foldlM (CallJoinState.step host (indexByFile nodes) root) (state.record edge.samples none none)) = .ok result

theorem dropsFrames_of_noPath (h : resolveFilePath host url root (indexByFile nodes) = .ok none) :
    DropsFrames host nodes root url := by
  rintro before after frame rfl
  have hstep : ∀ state : JoinState, state.step host (indexByFile nodes) root frame =
      .ok (state.record host frame (.missing .noFile)) := step_of_resolve (resolve_of_noPath h)
  rw [join_eq, @loop.foldlM_append_cons _ _ _ _ (fun state frame => state.record host frame (.missing .noFile)) _ _ _ hstep]

theorem nodeOf_of_noPath {frame : FrameRef} (h : resolveFilePath host frame.url root (indexByFile nodes) = .ok none) :
    nodeOf host nodes root frame = none := by
  rw [nodeOf, outcome_of_resolve (resolve_of_noPath h)]
  rfl

theorem record_of_missing_end {caller callee : Option RuntimeTargetNode} (h : caller = none ∨ callee = none)
    (state : CallJoinState) (samples : ℚ) : state.record samples caller callee = state.record samples none none := by
  rcases h with rfl | rfl
  · rfl
  · cases caller <;> rfl

theorem dropsCallEdges_of_noPath (h : resolveFilePath host url root (indexByFile nodes) = .ok none) :
    DropsCallEdges host nodes root url := by
  intro before after edge result hend hjoin
  have hmissing : nodeOf host nodes root edge.caller = none ∨ nodeOf host nodes root edge.callee = none := by
    rcases hend with hend | hend
    · exact .inl (nodeOf_of_noPath (hend.symm ▸ h))
    · exact .inr (nodeOf_of_noPath (hend.symm ▸ h))
  rw [joinCallEdges_eq] at hjoin
  cases hrun : (before ++ edge :: after).foldlM (CallJoinState.step host (indexByFile nodes) root) {} with
  | error e => rw [hrun] at hjoin; cases hjoin
  | ok final =>
    rw [hrun] at hjoin
    rw [← hjoin]
    refine congrArg (Except.map CallJoinState.result) ?_
    exact @loop.bind_of_foldlM_append_cons _ _ _ _ (fun state edge => state.record edge.samples none none) _ _ _ _ _
      (fun state next hstep => (callStep_eq_ok hstep).trans (record_of_missing_end hmissing state _)) hrun

/-- Looking a frame up in a file never ends for want of a file. -/
theorem resolveNode_ne_noFile (fileNodes : List RuntimeTargetNode) (functionName : String) (line : ℚ) :
    resolveNode fileNodes functionName line ≠ .missing .noFile := by
  unfold resolveNode
  split
  · exact fun h => nomatch h
  · split <;> exact fun h => nomatch h
  · split <;> exact fun h => nomatch h

/-- The report of a single frame tells why it was dropped, if it was. -/
theorem eq_noFile_of_result {frame : FrameSample} {resolution : NodeResolution}
    (h : (({} : JoinState).record host frame resolution).result =
      (({} : JoinState).record host frame (.missing .noFile)).result) : resolution = .missing .noFile := by
  cases resolution with
  | found node via =>
    have hmatched := congrArg RuntimeJoinResult.matchedFrames h
    exact absurd hmatched Nat.one_ne_zero
  | missing reason =>
    have hdropped := congrArg (fun result => result.dropped.map DroppedFrameGroup.reason) h
    exact congrArg NodeResolution.missing (List.cons.inj hdropped).1

theorem not_dropsFrames_of_path {filePath : String}
    (h : resolveFilePath host url root (indexByFile nodes) = .ok (some filePath)) : ¬ DropsFrames host nodes root url := by
  intro hdrops
  let frame : FrameSample := { functionName := "", url, line := 1, column := 0, samples := 1, selfMicros := 0 }
  have hjoin := hdrops [] [] frame rfl
  rw [List.nil_append, @join_single _ _ _ frame _ (resolve_of_path h)] at hjoin
  exact resolveNode_ne_noFile _ _ _ (eq_noFile_of_result (Except.ok.inj hjoin))

theorem suffixMatch_eq_none_iff {l : List String} (hnodup : l.Nodup) :
    suffixMatch absolute l none = none ↔ ¬ ∃! filePath, filePath ∈ l ∧ EndsIn absolute filePath := by
  rw [← not_iff_not, not_not, ← Ne, Option.ne_none_iff_exists']
  refine exists_congr fun filePath => ?_
  rw [suffixMatch_eq_some_iff hnodup, and_assoc]
  simp only [and_imp]

/-- Unless a file has the relative path, the url is left to the suffix search. -/
theorem resolveFilePath_of_liesAt (hlies : LiesAt host root url absolute path)
    (hunknown : ∀ node ∈ nodes, node.filePath ≠ path) (hplain : ¬ (url.length = 0 ∨ startsWith url "node:" = true)) :
    resolveFilePath host url root (indexByFile nodes) =
      .ok (suffixMatch (toPosix host absolute) (indexByFile nodes).keys none) := by
  have hpath : path ∉ (indexByFile nodes).keys := by
    rw [mem_keys_indexByFile, List.mem_map]
    rintro ⟨node, hnode, rfl⟩
    exact hunknown node hnode rfl
  rw [resolveFilePath, if_neg hplain, hlies.decodes]
  change Except.ok (locate host absolute root (indexByFile nodes)) = _
  rw [locate, hlies.path_eq, if_neg fun h => hpath h.2.2.2]

/-- A frame whose file, inside the root in particular, is not in the graph is
dropped unless its path happens to end in that of one file which is. -/
theorem drops_inside_iff (hlies : LiesAt host root url absolute path)
    (hunknown : ∀ node ∈ nodes, node.filePath ≠ path) :
    DropsFrames host nodes root url ∧ DropsCallEdges host nodes root url ↔
      (url.length = 0 ∨ startsWith url "node:" = true) ∨
        ¬ ∃! filePath, filePath ∈ nodes.map RuntimeTargetNode.filePath ∧ EndsIn (toPosix host absolute) filePath := by
  by_cases hplain : url.length = 0 ∨ startsWith url "node:" = true
  · have hpath : resolveFilePath host url root (indexByFile nodes) = .ok none := by
      rw [resolveFilePath, if_pos hplain]
      rfl
    exact iff_of_true ⟨dropsFrames_of_noPath hpath, dropsCallEdges_of_noPath hpath⟩ (.inl hplain)
  · have hresolve := resolveFilePath_of_liesAt hlies hunknown hplain
    have hnone := @suffixMatch_eq_none_iff (toPosix host absolute) _ (indexByFile nodes).nodup_keys
    simp only [mem_keys_indexByFile] at hnone
    rw [or_iff_right hplain, ← hnone]
    constructor
    · rintro ⟨hframes, _⟩
      cases hsuffix : suffixMatch (toPosix host absolute) (indexByFile nodes).keys none with
      | none => rfl
      | some filePath => exact absurd hframes (not_dropsFrames_of_path (hresolve.trans (by rw [hsuffix])))
    · intro hsuffix
      rw [hsuffix] at hresolve
      exact ⟨dropsFrames_of_noPath hresolve, dropsCallEdges_of_noPath hresolve⟩

/-- A dependency's own file, which shares no path with the project's. -/
theorem drops_inside_iff_dependency :
    DropsFrames (posixHost []) [⟨"Function:src/main.ts#run@1", .Function, "run", "src/main.ts", 1, 9⟩] "/app"
      "file:///app/node_modules/lib/util.ts" := by
  have hiff := @drops_inside_iff (posixHost [])
    [⟨"Function:src/main.ts#run@1", .Function, "run", "src/main.ts", 1, 9⟩] "/app"
    "file:///app/node_modules/lib/util.ts" "/app/node_modules/lib/util.ts" "node_modules/lib/util.ts"
    { decodes := by decide +kernel, path_eq := by decide +kernel } (by decide +kernel)
  refine (hiff.mpr (.inr ?_)).1
  rintro ⟨filePath, ⟨hmem, hends⟩, _⟩
  obtain rfl := List.mem_singleton.mp hmem
  exact absurd hends (by decide +kernel)

/-- A dependency's frame counts for the project's file of the same name. -/
theorem not_drops_inside_dependency :
    ¬ ∀ (host : Host) (nodes : List RuntimeTargetNode) (root url absolute path : String),
      LiesAt host root url absolute path → startsWith absolute (root ++ "/") = true →
        (∀ node ∈ nodes, node.filePath ≠ path) → DropsFrames host nodes root url ∧ DropsCallEdges host nodes root url := by
  intro hall
  obtain ⟨hframes, _⟩ := hall (posixHost []) [⟨"Function:src/main.ts#run@1", .Function, "run", "src/main.ts", 1, 9⟩]
    "/app" "file:///app/node_modules/lib/src/main.ts" "/app/node_modules/lib/src/main.ts"
    "node_modules/lib/src/main.ts"
    { decodes := by decide +kernel, path_eq := by decide +kernel } (by decide +kernel) (by decide +kernel)
  have hjoin := hframes [] [] ⟨"run", "file:///app/node_modules/lib/src/main.ts", 4, 0, 1, 0⟩ rfl
  have hmatched := congrArg (Except.map RuntimeJoinResult.matchedFrames) hjoin
  exact absurd hmatched (by decide +kernel)

end codespine.enrich.RuntimeJoin
