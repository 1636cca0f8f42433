import Codespine.Enrich.RuntimeEnricher
import Codespine.Enrich.RuntimeJoin.CallEdges
import Codespine.Extract.StructuralExtractor

open codespine.schema codespine.store codespine.extract

namespace codespine.enrich.RuntimeJoin

variable {host : Host} {nodes : List RuntimeTargetNode} {root : String}

/-- Node kinds that stand for no code of their own. -/
def INERT_KINDS : List NodeKind := [.Parameter, .Interface, .TypeAlias, .Enum]

theorem not_inert_of_nameMatch {kind : NodeKind} (h : kind ∈ NAME_MATCH_KINDS) : kind ∉ INERT_KINDS := by
  cases kind <;> revert h <;> decide

/-- The innermost node of a file at a line: the first one of least span. -/
noncomputable def innermost (nodes : List RuntimeTargetNode) (filePath : String) (line : ℚ) : Option RuntimeTargetNode :=
  ((nodes.filter fun node => node.filePath = filePath).filter fun node => Encloses line node).argmin width

theorem mem_of_innermost {filePath : String} {line : ℚ} {node : RuntimeTargetNode}
    (h : innermost nodes filePath line = some node) : node ∈ nodes :=
  List.mem_of_mem_filter (List.mem_of_mem_filter (List.argmin_mem h))

/-- No line of a file that a url leads to is innermost in the range of a
parameter, an interface, a type alias or an enum. -/
def NoInertInnermost (host : Host) (nodes : List RuntimeTargetNode) (root : String) : Prop :=
  ∀ url filePath line node, resolveFilePath host url root (indexByFile nodes) = .ok (some filePath) →
    innermost nodes filePath line = some node → node.kind ∉ INERT_KINDS

theorem not_inert_of_nodeOf (hinnermost : NoInertInnermost host nodes root) {frame : FrameRef} {node : RuntimeTargetNode}
    (h : nodeOf host nodes root frame = some node) : node.kind ∉ INERT_KINDS := by
  obtain ⟨via, hvia⟩ := outcome_of_nodeOf h
  obtain ⟨filePath, hpath, hfound⟩ := path_of_resolve (resolve_of_outcome_found hvia)
  rcases resolveNode_found hfound with hname | ⟨_, hrange⟩
  · exact not_inert_of_nameMatch (kind_of_mem_nameMatches hname)
  · rw [enclosingNode_eq_argmin] at hrange
    exact hinnermost frame.url filePath frame.line node hpath hrange

/-- The ids that a join attributes to are those of nodes that frames resolve
to. -/
theorem attributed_of_mem_keys (frames : List FrameSample) {id : String}
    (hid : id ∈ (frames.foldl (fun state frame => state.record host frame (outcome host nodes root (refOf frame)))
      ({} : JoinState)).attributions.keys) :
    ∃ frame ∈ frames, ∃ node, nodeOf host nodes root (refOf frame) = some node ∧ node.id = id := by
  induction frames using List.reverseRecOn with
  | nil => cases hid
  | append_singleton frames frame ih =>
    rw [List.foldl_append, List.foldl_cons, List.foldl_nil] at hid
    cases houtcome : outcome host nodes root (refOf frame) with
    | missing reason =>
      rw [houtcome] at hid
      obtain ⟨earlier, hearlier, hnode⟩ := ih hid
      exact ⟨earlier, List.mem_append_left _ hearlier, hnode⟩
    | found node via =>
      rw [houtcome] at hid
      rcases OrderedMap.mem_keys_set.mp hid with hid | rfl
      · obtain ⟨earlier, hearlier, hnode⟩ := ih hid
        exact ⟨earlier, List.mem_append_left _ hearlier, hnode⟩
      · exact ⟨frame, List.mem_append_right _ (List.mem_singleton_self _), node, by rw [nodeOf, houtcome]; rfl, rfl⟩

/-- Execution cost lands on executable nodes only, in every profile joined
onto the nodes. -/
def LandsOnExecutable (host : Host) (nodes : List RuntimeTargetNode) (root : String) : Prop :=
  (∀ frames result, join host nodes frames root = .ok result →
    ∀ id ∈ result.attributions.keys, ∀ node ∈ nodes, node.id = id → node.kind ∉ INERT_KINDS) ∧
  (∀ callEdges result, joinCallEdges host nodes callEdges root = .ok result →
    ∀ edge ∈ result.edges, ∀ node ∈ nodes, node.id = edge.source ∨ node.id = edge.target → node.kind ∉ INERT_KINDS)

/-- Since the search by line takes nodes of every kind, cost stays on executable
nodes just when no other node is ever innermost. -/
theorem landsOnExecutable_iff (hkinds : ∀ a ∈ nodes, ∀ b ∈ nodes, a.id = b.id → a.kind = b.kind) :
    LandsOnExecutable host nodes root ↔ NoInertInnermost host nodes root := by
  constructor
  · rintro ⟨hframes, _⟩ url filePath line node hpath hnarrowest
    let frame : FrameSample := { functionName := "", url, line, column := 0, samples := 1, selfMicros := 0 }
    have hfound : resolveNode ((indexByFile nodes).getD filePath []) "" line = .found node .range := by
      refine resolveNode_anonymous ?_
      rw [getD_indexByFile, enclosingNode_eq_argmin]
      exact hnarrowest
    have hnode := mem_of_innermost hnarrowest
    have hjoin : join host nodes [frame] root = .ok (({} : JoinState).record host frame (.found node .range)).result :=
      join_single (hfound ▸ resolve_of_path hpath)
    exact hframes [frame] _ hjoin node.id (List.mem_singleton_self _) node hnode rfl
  · intro hinnermost
    constructor
    · intro frames result hjoin id hid node hnode hnodeId
      rw [join_eq_ok hjoin] at hid
      obtain ⟨frame, _, found, hfound, hfoundId⟩ := attributed_of_mem_keys frames hid
      rw [hkinds node hnode found (mem_of_nodeOf hfound) (hnodeId.trans hfoundId.symm)]
      exact not_inert_of_nodeOf hinnermost hfound
    · intro callEdges result hjoin edge hedge node hnode hnodeId
      rw [joinCallEdges_eq_ok hjoin] at hedge
      obtain ⟨_, _, caller, callee, hcaller, hcallee, _, hsource, htarget⟩ := ends_of_mem_edges hedge
      rcases hnodeId with hnodeId | hnodeId
      · rw [hkinds node hnode caller (mem_of_nodeOf hcaller) (hnodeId.trans hsource)]
        exact not_inert_of_nodeOf hinnermost hcaller
      · rw [hkinds node hnode callee (mem_of_nodeOf hcallee) (hnodeId.trans htarget)]
        exact not_inert_of_nodeOf hinnermost hcallee

/-- `function run(task) { }` on one line, the function before its parameter. -/
def oneLineRunner : List RuntimeTargetNode :=
  [⟨"Function:src/main.ts#run@1", .Function, "run", "src/main.ts", 1, 1⟩,
    ⟨"Parameter:src/main.ts#task@1", .Parameter, "task", "src/main.ts", 1, 1⟩]

theorem landsOnExecutable_iff_oneLineRunner : LandsOnExecutable (posixHost []) oneLineRunner "/app" := by
  refine (landsOnExecutable_iff (by decide +kernel)).mpr fun _ filePath line node _ hinnermost => ?_
  -- The two have one range, so that a line is in both or in neither.
  have hfilter : ((oneLineRunner.filter fun node => node.filePath = filePath).filter fun node => Encloses line node) =
      oneLineRunner ∨
      ((oneLineRunner.filter fun node => node.filePath = filePath).filter fun node => Encloses line node) = [] := by
    rw [List.filter_filter]
    by_cases hline : ((1 : ℚ) ≤ line ∧ line ≤ 1) ∧ "src/main.ts" = filePath
    · exact Or.inl (by simp [oneLineRunner, Encloses, hline])
    · exact Or.inr (by simpa [oneLineRunner, Encloses] using hline)
  unfold innermost at hinnermost
  rcases hfilter with hfilter | hfilter
  · have hrun : oneLineRunner.argmin width = oneLineRunner.head? := by decide +kernel
    rw [hfilter, hrun] at hinnermost
    cases hinnermost
    decide
  · rw [hfilter] at hinnermost
    cases hinnermost

/-- `function run(task) {`, a body of one line, and `}`. -/
def taskRunner : Project where
  count := 6
  node := ![
    { kind := .SourceFile, text := "/p/main.ts", endLine := 3 },
    { kind := .FunctionDeclaration, parent := some 0, name := some "run", endLine := 3 },
    { kind := .Identifier, parent := some 1, role := .name, text := "run" },
    { kind := .Parameter, parent := some 1, name := some "task" },
    { kind := .Identifier, parent := some 3, role := .name, text := "task" },
    { kind := .other "Block", parent := some 1, endLine := 3 }]
  parent_lt := by decide
  sourceFile_iff_root := by decide
  resolve _ := none
  getBaseClass _ := none
  getBaseDeclarations _ := []
  getModuleSpecifierSourceFile _ := none

/-- The nodes of a file as `enrich` reads them back. -/
def targetsOf (host : Host) (rootPath : String) (P : Project) (file : P.Ref) : List RuntimeTargetNode :=
  ((KuzuStore.initSchema.load (StructuralExtractor.extract host rootPath P file).nodes []).1.readNodes).map targetOf

/-- The frame of the module's own code, which starts at its first line, counts
for the parameter in that line. -/
theorem not_landsOnExecutable_parameter :
    ¬ ∀ (host : Host) (rootPath : String) (P : Project) (file : P.Ref) (root : String), P.kind file = .SourceFile →
      LandsOnExecutable host (targetsOf host rootPath P file) root := by
  intro hclaim
  let file : taskRunner.Ref := ⟨0, by decide⟩
  let frame : FrameSample := ⟨"(anonymous)", "file:///p/main.ts", 1, 0, 5, 900⟩
  obtain ⟨hframes, _⟩ := hclaim (posixHost []) "/p" taskRunner file "/p" rfl
  have hkeys : (join (posixHost []) (targetsOf (posixHost []) "/p" taskRunner file) [frame] "/p").map
      (fun result => result.attributions.keys) = .ok ["Parameter:main.ts#task@1"] := by decide +kernel
  have hnode : ∃ node ∈ targetsOf (posixHost []) "/p" taskRunner file,
      node.id = "Parameter:main.ts#task@1" ∧ node.kind ∈ INERT_KINDS := by decide +kernel
  obtain ⟨node, hnode, hid, hkind⟩ := hnode
  cases hjoin : join (posixHost []) (targetsOf (posixHost []) "/p" taskRunner file) [frame] "/p" with
  | error e => rw [hjoin] at hkeys; cases hkeys
  | ok result =>
    rw [hjoin] at hkeys
    have hkeys : result.attributions.keys = ["Parameter:main.ts#task@1"] := Except.ok.inj hkeys
    have hmem : node.id ∈ result.attributions.keys := hkeys.symm ▸ hid ▸ List.mem_singleton_self _
    exact hframes [frame] result hjoin node.id hmem node hnode rfl hkind

end codespine.enrich.RuntimeJoin
